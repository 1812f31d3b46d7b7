import SmallC.Proofs.Graph.Mention
import SmallC.Proofs.Simulation.Program

/-!
# Results of void functions

A function without a result may be called only where the value of the call is not used.  Its call is
lowered like any other, into a temporary that gets no value.  No other instruction and no test
mentions that temporary: an expression whose value is used calls no such function, and whatever is
lowered later mentions variables in scope and temporaries of its own.
-/

namespace SmallC.Lowering

open SmallC.Graph Semantic

variable {defined isVoid : String → Bool} {graph middle next : Graph} {slot : Slot}

/-! ## Expressions -/

/-- A graph that is quietly extended to give a value in a slot that was not hidden. -/
structure Yields (isVoid : String → Bool) (graph : Graph) (slot : Slot) (next : Graph) : Prop where
  quiet : Quiet isVoid graph next
  offers : Offers graph next slot

/-- A new temporary. -/
theorem yields_withTemporary (tidy : graph.Tidy) (can : graph.CanTakeTemporary) :
    Yields isVoid graph graph.symbols.nextKey graph.withTemporary :=
  ⟨(Quiet.refl tidy).withTemporary can, hasSlot_withTemporary graph,
    not_hidden_of_not_hasSlot tidy.not_hasSlot_nextKey⟩

/-- An instruction that is no call, after an expression. -/
theorem Yields.extended (yields : Yields isVoid graph slot next) {instruction : Instruction}
    (formed : instruction.WellFormed (Offers graph next) fun _ => True)
    (noCall : instruction.operation ≠ .call) :
    Yields isVoid graph slot (next.extended instruction) := by
  refine ⟨yields.quiet.extended formed ?_, yields.offers.extended instruction⟩
  rintro target function arguments rfl
  exact absurd rfl noCall

/-- A branch on the value of an expression, after some blocks are created. -/
theorem Yields.branched (yields : Yields isVoid graph slot next) (tags : List String)
    (onTrue onFalse id : BlockId) :
    Quiet isVoid graph ((next.createdAll tags).branched slot onTrue onFalse id) := by
  refine (yields.quiet.createdAll tags).branched ⟨?_, yields.offers.shown⟩ onTrue onFalse id
  rw [HasSlot, createdAll_symbols]
  exact yields.offers.known

theorem yields_constant {value : Int32} (tidy : graph.Tidy)
    (lowered : constant value graph = .ok (slot, next)) : Yields isVoid graph slot next := by
  obtain ⟨can, -, rfl, rfl⟩ := constant_eq_ok_iff.mp lowered
  have started : Yields isVoid graph graph.symbols.nextKey graph.withTemporary :=
    yields_withTemporary tidy can
  exact started.extended (.loadConstant value started.offers) nofun

theorem yields_lowerStep {op : StepOp} {fixity : Fixity} {operand : Slot} (tidy : graph.Tidy)
    (offers : Offers graph graph operand)
    (lowered : lowerStep op fixity operand graph = .ok (slot, next)) :
    Yields isVoid graph slot next := by
  obtain ⟨can, -, rfl, rfl⟩ := lowerStep_eq_ok_iff.mp lowered
  have started : Yields isVoid graph graph.symbols.nextKey graph.withTemporary :=
    yields_withTemporary tidy can
  have operandOffers := offers.later started.quiet
  cases fixity with
  | before =>
    have stepped := started.extended (.step op operandOffers) nofun
    exact stepped.extended (.copy stepped.offers (operandOffers.extended _)) nofun
  | after =>
    have copied := started.extended (.copy started.offers operandOffers) nofun
    exact copied.extended (.step op (operandOffers.extended _)) nofun

/-- The value of a variable in scope. -/
theorem offers_of_lookup? (tidy : graph.Tidy) {name : Ident} (word : name.WellFormed)
    (found : graph.scopes.lookup? name.name = some slot) : Offers graph graph slot :=
  ⟨tidy.hasSlot_of_lookup? found, not_hidden_of_lookup? word found⟩

theorem operator_offers {op : BinaryOp} {make : Slot → Slot → Slot → Instruction}
    (strict : operator? op = some make) {target left right : Slot}
    (targetOffers : Offers graph next target) (leftOffers : Offers graph next left)
    (rightOffers : Offers graph next right) :
    (make target left right).WellFormed (Offers graph next) (fun _ => True) ∧
      (make target left right).operation ≠ .call := by
  cases op with
  | arithmetic op =>
    cases strict
    exact ⟨.arithmetic op targetOffers leftOffers rightOffers, nofun⟩
  | compare op =>
    cases strict
    exact ⟨.compare op targetOffers leftOffers rightOffers, nofun⟩
  | logical op => cases strict

theorem storeInstruction_offers (op : Option ArithmeticOp) {target value : Slot}
    (targetOffers : Offers graph next target) (valueOffers : Offers graph next value) :
    (storeInstruction op target value).WellFormed (Offers graph next) (fun _ => True) ∧
      (storeInstruction op target value).operation ≠ .call := by
  cases op with
  | none => exact ⟨.copy targetOffers valueOffers, nofun⟩
  | some op => exact ⟨.arithmetic op targetOffers targetOffers valueOffers, nofun⟩

/-- The target of a call is one of the given functions only if its name is. -/
def PlainTargets (defined isVoid : String → Bool) : Prop :=
  ∀ name, isVoid (callTarget defined name) = true → isVoid name = true

mutual

/-- An expression that calls none of the given functions is lowered quietly. -/
theorem yields_lowerExpr (targets : PlainTargets defined isVoid) (value : Expr)
    {graph next : Graph} {slot : Slot} (tidy : graph.Tidy) (tree : value.WellFormed)
    (noCall : value.findCall? isVoid = none)
    (lowered : lowerExpr defined value graph = .ok (slot, next)) :
    Yields isVoid graph slot next := by
  cases value with
  | literal written =>
    obtain ⟨number, -, filled⟩ := lowerExpr_literal_eq_ok_iff.mp lowered
    exact yields_constant tidy filled
  | identifier name =>
    obtain ⟨found, rfl⟩ := lowerExpr_identifier_eq_ok_iff.mp lowered
    exact ⟨.refl tidy, offers_of_lookup? tidy tree found⟩
  | group span inner =>
    rw [lowerExpr] at lowered
    rw [Expr.findCall?] at noCall
    exact yields_lowerExpr targets inner tidy tree noCall lowered
  | call span callee arguments =>
    obtain ⟨can, rfl, slots, middle, argumentsLowered, -, rfl⟩ :=
      lowerExpr_call_eq_ok_iff.mp lowered
    rw [Expr.findCall?] at noCall
    by_cases void : isVoid callee.name = true
    · rw [if_pos void] at noCall
      cases noCall
    rw [if_neg void] at noCall
    have started : Yields isVoid graph graph.symbols.nextKey graph.withTemporary :=
      yields_withTemporary tidy can
    obtain ⟨quiet, offers⟩ :=
      offers_lowerArguments targets arguments started.quiet.tidy tree.2 noCall argumentsLowered
    have targetOffers := started.offers.later quiet
    refine ⟨(started.quiet.trans quiet).extended (.call _ targetOffers fun slot member =>
      started.quiet.offers (offers slot member)) ?_, targetOffers.extended _⟩
    rintro target function others same
    have function_eq : callTarget defined callee.name = function := by
      simp only [Instruction.call, Instruction.mk.injEq, List.cons.injEq,
        Operand.function.injEq] at same
      exact same.2.2.1
    rw [← function_eq, Bool.eq_false_iff]
    exact fun isCalled => void (targets callee.name isCalled)
  | binary span op opSpan left right =>
    rw [Expr.findCall?, Option.or_eq_none_iff] at noCall
    rcases exists_operator_or_logical op with ⟨make, strict⟩ | ⟨op, rfl⟩
    · obtain ⟨can, rfl, leftSlot, leftGraph, rightSlot, rightGraph, leftLowered, rightLowered,
        -, rfl⟩ := (lowerExpr_operator_eq_ok_iff strict).mp lowered
      have started : Yields isVoid graph graph.symbols.nextKey graph.withTemporary :=
        yields_withTemporary tidy can
      have first := yields_lowerExpr targets left started.quiet.tidy tree.1 noCall.1 leftLowered
      have second := yields_lowerExpr targets right first.quiet.tidy tree.2 noCall.2 rightLowered
      have untilLeft := started.quiet.trans first.quiet
      have targetOffers := (started.offers.later first.quiet).later second.quiet
      have leftOffers := (started.quiet.offers first.offers).later second.quiet
      have rightOffers := untilLeft.offers second.offers
      have all : Yields isVoid graph graph.symbols.nextKey rightGraph :=
        ⟨untilLeft.trans second.quiet, targetOffers⟩
      obtain ⟨formed, isNoCall⟩ := operator_offers strict targetOffers leftOffers rightOffers
      exact all.extended formed isNoCall
    · obtain ⟨started, leftSlot, leftGraph, rightSlot, rightGraph, begun, leftLowered, -,
        rightLowered, joined⟩ := lowerExpr_logical_eq_ok_iff.mp lowered
      obtain ⟨-, -, rfl⟩ := joinLogical_eq_ok_iff.mp joined
      have start : Yields isVoid graph slot started := yields_constant tidy begun
      have first := yields_lowerExpr targets left start.quiet.tidy tree.1 noCall.1 leftLowered
      have split : Quiet isVoid started (logicalSplit op leftSlot leftGraph) :=
        first.branched (logicalTags op) _ _ _
      have second := yields_lowerExpr targets right split.tidy tree.2 noCall.2 rightLowered
      have untilRight := (start.quiet.trans split).trans second.quiet
      have slotOffers := (start.offers.later split).later second.quiet
      have rightOffers := (start.quiet.trans split).offers second.offers
      have tested := untilRight.branched rightOffers (logicalBlocks leftGraph).whenTrue
        (logicalBlocks leftGraph).out (logicalBlocks leftGraph).whenTrue
      have isTrue : Yields isVoid graph slot
          (logicalTrue (logicalBlocks leftGraph) slot rightSlot rightGraph) :=
        Yields.extended ⟨tested, slotOffers.known, slotOffers.shown⟩
          (.loadConstant 1 ⟨slotOffers.known, slotOffers.shown⟩) nofun
      exact ⟨isTrue.quiet.jumped _ _, isTrue.offers.known, isTrue.offers.shown⟩
  | unary span op opSpan operand =>
    rw [Expr.findCall?] at noCall
    obtain ⟨operandSlot, middle, operandLowered, can, -, rfl, rfl⟩ :=
      lowerExpr_unary_eq_ok_iff.mp lowered
    have first := yields_lowerExpr targets operand tidy tree noCall operandLowered
    have second : Yields isVoid middle middle.symbols.nextKey middle.withTemporary :=
      yields_withTemporary first.quiet.tidy can
    have both : Yields isVoid graph middle.symbols.nextKey middle.withTemporary :=
      ⟨first.quiet.trans second.quiet, first.quiet.offers second.offers⟩
    have copied := both.extended (.copy both.offers (first.offers.later second.quiet)) nofun
    exact copied.extended (.unary op copied.offers) nofun
  | step span op fixity target =>
    obtain ⟨operand, found, filled⟩ := lowerExpr_step_eq_ok_iff.mp lowered
    exact yields_lowerStep tidy (offers_of_lookup? tidy tree found) filled
  | assign span target op value =>
    rw [Expr.findCall?] at noCall
    obtain ⟨valueSlot, middle, valueLowered, found, -, rfl⟩ := lowerExpr_assign_eq_ok_iff.mp lowered
    have first := yields_lowerExpr targets value tidy tree.2 noCall valueLowered
    have targetOffers := first.quiet.offers (offers_of_lookup? first.quiet.tidy tree.1 found)
    have both : Yields isVoid graph slot middle := ⟨first.quiet, targetOffers⟩
    obtain ⟨formed, isNoCall⟩ := storeInstruction_offers (op.map Prod.fst) targetOffers first.offers
    exact both.extended formed isNoCall

/-- Arguments that call none of the given functions are lowered quietly. -/
theorem offers_lowerArguments (targets : PlainTargets defined isVoid) (arguments : List Expr)
    {graph next : Graph} {slots : List Slot} (tidy : graph.Tidy)
    (tree : Expr.AllWellFormed arguments)
    (noCall : Expr.findCallIn? isVoid arguments = none)
    (lowered : lowerArguments defined arguments graph = .ok (slots, next)) :
    Quiet isVoid graph next ∧ ∀ slot ∈ slots, Offers graph next slot := by
  cases arguments with
  | nil =>
    cases lowered
    exact ⟨.refl tidy, by simp⟩
  | cons first others =>
    obtain ⟨firstSlot, middle, otherSlots, firstLowered, othersLowered, rfl⟩ :=
      lowerArguments_cons_eq_ok_iff.mp lowered
    rw [Expr.findCallIn?, Option.or_eq_none_iff] at noCall
    have yields := yields_lowerExpr targets first tidy tree.1 noCall.1 firstLowered
    obtain ⟨quiet, offers⟩ :=
      offers_lowerArguments targets others yields.quiet.tidy tree.2 noCall.2 othersLowered
    refine ⟨yields.quiet.trans quiet, ?_⟩
    rw [List.forall_mem_cons]
    exact ⟨yields.offers.later quiet, fun slot member => yields.quiet.offers (offers slot member)⟩

end

/-! ## Expressions whose values are not used -/

theorem wellFormed_ungrouped {value : Expr} (tree : value.WellFormed) :
    value.ungrouped.WellFormed := by
  fun_induction Expr.ungrouped value with
  | case1 span inner ih => exact ih tree
  | case2 => exact tree

theorem lowerExpr_ungrouped (value : Expr) (graph : Graph) :
    lowerExpr defined value.ungrouped graph = lowerExpr defined value graph := by
  fun_induction Expr.ungrouped value with
  | case1 span inner ih => rw [ih, lowerExpr]
  | case2 => rfl

theorem refuseCall_eq_ok_iff {found : Option (Ident × Span)} {done : Unit} :
    refuseCall found = .ok done ↔ found = none := by
  cases found with
  | none | some call => simp [refuseCall]

variable {state after : State} {value : Expr}

theorem checkUsed_eq_ok_iff :
    checkUsed isVoid value state = .ok after ↔
      value.findCall? isVoid = none ∧ checkExpr value state = .ok after := by
  simp only [checkUsed, valueUsed, bind_eq_ok_iff, refuseCall_eq_ok_iff, exists_const]

/-- An expression whose value may be dropped is a call without such calls in its arguments, or has
no such calls at all. -/
theorem valueDiscarded_eq_ok (checked : valueDiscarded isVoid value = .ok ()) :
    (∃ span callee arguments, value.ungrouped = .call span callee arguments ∧
        Expr.findCallIn? isVoid arguments = none) ∨
      value.ungrouped.findCall? isVoid = none := by
  unfold valueDiscarded at checked
  split at checked
  · rename_i span callee arguments value_eq
    exact .inl ⟨span, callee, arguments, value_eq, refuseCall_eq_ok_iff.mp checked⟩
  · rename_i span target op assigned value_eq
    rw [value_eq, Expr.findCall?]
    exact .inr (refuseCall_eq_ok_iff.mp checked)
  · rw [Expr.findCall?_ungrouped]
    exact .inr (refuseCall_eq_ok_iff.mp checked)

section Statements

variable (targets : PlainTargets defined isVoid)

include targets

section

variable (silent : Silent isVoid graph)
include silent

/-- A call whose value is not used gets a slot that nothing else mentions. -/
theorem silent_lowerCall {span : Span} {callee : Ident} {arguments : List Expr}
    (tree : Expr.AllWellFormed arguments) (noCall : Expr.findCallIn? isVoid arguments = none)
    (lowered : lowerExpr defined (.call span callee arguments) graph = .ok (slot, next)) :
    Silent isVoid next := by
  obtain ⟨can, rfl, slots, middle, argumentsLowered, -, rfl⟩ := lowerExpr_call_eq_ok_iff.mp lowered
  have isNew := silent.tidy.not_hasSlot_nextKey
  have started : Yields isVoid graph graph.symbols.nextKey graph.withTemporary :=
    yields_withTemporary silent.tidy can
  have hidden : graph.withTemporary.Hidden graph.symbols.nextKey := by
    refine ⟨hasSlot_withTemporary graph, fun entry member same => isNew ?_⟩
    rw [named_withTemporary] at member
    rw [← same]
    exact silent.tidy.scopes_known entry ((Scopes.flatten_all_named_sublist _).subset member)
  obtain ⟨quiet, offers⟩ := offers_lowerArguments targets arguments started.quiet.tidy tree
    noCall argumentsLowered
  have unmentioned : graph.withTemporary.Unmentioned graph.symbols.nextKey := by
    obtain ⟨instructions, tests⟩ := silent.tidy.unmentioned isNew
    exact ⟨instructions, tests⟩
  refine silent.called (started.quiet.trans quiet) isNew (quiet.hidden _ hidden)
    (unmentioned.quiet hidden quiet) (fun slot member => started.quiet.offers (offers slot member))
    ?_ _
  exact fun member => (offers _ member).shown hidden

theorem silent_lowerEffect (tree : value.WellFormed)
    (checked : checkDiscarded isVoid value state = .ok after)
    (lowered : lowerExpr defined value graph = .ok (slot, next)) : Silent isVoid next := by
  obtain ⟨_, discarded, -⟩ := bind_eq_ok_iff.mp checked
  have inner := wellFormed_ungrouped tree
  rw [← lowerExpr_ungrouped] at lowered
  rcases valueDiscarded_eq_ok discarded with ⟨span, callee, arguments, value_eq, noCall⟩ | noCall
  · rw [value_eq] at lowered inner
    exact silent_lowerCall targets silent inner.2 noCall lowered
  · exact silent.quiet (yields_lowerExpr targets _ silent.tidy inner noCall lowered).quiet

theorem silent_lowerDeclarator {declarator : Declarator} (tree : declarator.WellFormed)
    (checked : checkDeclarator isVoid declarator state = .ok after)
    (lowered : lowerDeclarator defined declarator graph = .ok next) : Silent isVoid next := by
  obtain ⟨span, name, initializer⟩ := declarator
  cases initializer with
  | none =>
    obtain ⟨can, rfl⟩ := lowerDeclarator_none_eq_ok_iff.mp lowered
    exact silent.quiet ((Quiet.refl silent.tidy).declared tree.1 can)
  | some value =>
    obtain ⟨can, valueSlot, middle, valueLowered, -, rfl⟩ :=
      lowerDeclarator_some_eq_ok_iff.mp lowered
    obtain ⟨_, used, -⟩ := bind_eq_ok_iff.mp checked
    have declared : Quiet isVoid graph (graph.declared name.name) :=
      (Quiet.refl silent.tidy).declared tree.1 can
    have yields := yields_lowerExpr targets value declared.tidy tree.2
      (refuseCall_eq_ok_iff.mp used) valueLowered
    have nameOffers : Offers graph middle graph.symbols.nextKey :=
      ⟨yields.quiet.hasSlot (hasSlot_placed _ _ graph),
        not_hidden_of_not_hasSlot silent.tidy.not_hasSlot_nextKey⟩
    exact silent.quiet ((declared.trans yields.quiet).extended
      (.copy nameOffers (declared.offers yields.offers)) nofun)

end

theorem silent_lowerDeclarators (declarators : List Declarator) {graph next : Graph}
    (silent : Silent isVoid graph) (tree : ∀ declarator ∈ declarators, declarator.WellFormed)
    (checked : checkDeclarators isVoid declarators state = .ok after)
    (lowered : lowerDeclarators defined declarators graph = .ok next) : Silent isVoid next := by
  induction declarators generalizing graph state with
  | nil =>
    cases lowered
    exact silent
  | cons first others ih =>
    rw [List.forall_mem_cons] at tree
    obtain ⟨middle, firstLowered, othersLowered⟩ := lowerDeclarators_cons_eq_ok_iff.mp lowered
    obtain ⟨between, firstChecked, othersChecked⟩ := bind_eq_ok_iff.mp checked
    exact ih (silent_lowerDeclarator targets silent tree.1 firstChecked firstLowered)
      tree.2 othersChecked othersLowered

section

variable (silent : Silent isVoid graph)
include silent

theorem silent_lowerForInitializer {initializer : Option ForInitializer}
    (tree : ForInitializer.WellFormed initializer)
    (checked : checkForInitializer isVoid initializer state = .ok after)
    (lowered : lowerForInitializer defined initializer graph = .ok next) : Silent isVoid next := by
  rcases initializer with _ | declarators | value
  · cases lowered
    exact silent
  · exact silent_lowerDeclarators targets declarators silent tree checked lowered
  · obtain ⟨slot, valueLowered⟩ := lowerEffect_eq_ok_iff.mp lowered
    exact silent_lowerEffect targets silent tree checked valueLowered

theorem silent_lowerForTest {blocks : ForBlocks} {test : Option Expr}
    (tree : Expr.OptionWellFormed test)
    (checked : checkOptional (checkUsed isVoid) test state = .ok after)
    (lowered : (lowerForTest defined blocks test graph >>= enterBlock blocks.body) = .ok next) :
    Silent isVoid next := by
  cases test with
  | none =>
    obtain ⟨-, rfl⟩ := lowerForTest_none_eq_ok_iff.mp lowered
    exact silent.quiet ((Quiet.refl silent.tidy).jumped _ _)
  | some value =>
    obtain ⟨slot, tested, valueLowered, -, rfl⟩ := lowerForTest_some_eq_ok_iff.mp lowered
    obtain ⟨noCall, -⟩ := checkUsed_eq_ok_iff.mp checked
    have yields := yields_lowerExpr targets value silent.tidy tree noCall valueLowered
    exact silent.quiet (yields.branched [] _ _ _)

theorem silent_lowerForAfter {start : Graph} {expr : Option Expr}
    (tree : Expr.OptionWellFormed expr)
    (checked : checkOptional (checkDiscarded isVoid) expr state = .ok after)
    (lowered : lowerForAfter defined (forBlocks start expr) graph = .ok next) :
    Silent isVoid next := by
  cases expr with
  | none =>
    cases lowered
    exact silent
  | some value =>
    obtain ⟨-, slot, valueLowered⟩ := lowerForAfter_some_eq_ok_iff.mp lowered
    exact silent_lowerEffect targets (silent.quiet ((Quiet.refl silent.tidy).jumped _ _))
      tree checked valueLowered

end

end Statements

mutual

/-- Lowering a statement that passes the checks looks at no result that does not exist. -/
theorem silent_lowerStmt (targets : PlainTargets defined isVoid) (statement : Stmt)
    {graph next : Graph} {loop : Option LoopTargets} {inLoop : Bool} {state after : State}
    (silent : Silent isVoid graph) (tree : statement.WellFormed)
    (checked : checkStmt isVoid inLoop statement state = .ok after)
    (lowered : lowerStmt defined loop statement graph = .ok next) : Silent isVoid next := by
  cases statement with
  | declaration span declarators =>
    rw [lowerStmt] at lowered
    rw [checkStmt] at checked
    exact silent_lowerDeclarators targets declarators silent tree checked lowered
  | expression span value =>
    rw [lowerStmt] at lowered
    rw [checkStmt] at checked
    obtain ⟨slot, valueLowered⟩ := lowerEffect_eq_ok_iff.mp lowered
    exact silent_lowerEffect targets silent tree checked valueLowered
  | block span statements =>
    rw [checkStmt] at checked
    obtain ⟨inside, outer, insideLowered, left, rfl⟩ := lowerStmt_block_eq_ok_iff.mp lowered
    obtain ⟨ended, insideChecked, -⟩ := bind_eq_ok_iff.mp checked
    have done := silent_lowerStmts targets statements
      (silent.quiet (Quiet.refl silent.tidy).opened) tree insideChecked insideLowered
    exact done.quiet ((Quiet.refl done.tidy).closed left)
  | ifThen span condition positive =>
    rw [checkStmt] at checked
    obtain ⟨test, tested, done, conditionLowered, -, positiveLowered, -, rfl⟩ :=
      lowerStmt_ifThen_eq_ok_iff.mp lowered
    obtain ⟨between, conditionChecked, positiveChecked⟩ := bind_eq_ok_iff.mp checked
    have yields := yields_lowerExpr targets condition silent.tidy tree.1
      (checkUsed_eq_ok_iff.mp conditionChecked).1 conditionLowered
    have split := silent.quiet (yields.branched ["if_true", "if_out"] (tested.newKey 0)
      (tested.newKey 1) (tested.newKey 0))
    have ended := silent_lowerStmt targets positive split tree.2.1 positiveChecked positiveLowered
    exact ended.quiet ((Quiet.refl ended.tidy).jumped _ _)
  | ifElse span condition positive negative =>
    rw [checkStmt] at checked
    obtain ⟨test, tested, done, otherwise, conditionLowered, -, positiveLowered, -,
      negativeLowered, -, rfl⟩ := lowerStmt_ifElse_eq_ok_iff.mp lowered
    obtain ⟨between, conditionChecked, rest⟩ := bind_eq_ok_iff.mp checked
    obtain ⟨later, positiveChecked, negativeChecked⟩ := bind_eq_ok_iff.mp rest
    have yields := yields_lowerExpr targets condition silent.tidy tree.1
      (checkUsed_eq_ok_iff.mp conditionChecked).1 conditionLowered
    have split := silent.quiet (yields.branched ["if_true", "if_false", "if_out"]
      (tested.newKey 0) (tested.newKey 1) (tested.newKey 0))
    have first := silent_lowerStmt targets positive split tree.2.1.1 positiveChecked positiveLowered
    have second := silent_lowerStmt targets negative
      (first.quiet ((Quiet.refl first.tidy).jumped _ _)) tree.2.2.1 negativeChecked
      negativeLowered
    exact second.quiet ((Quiet.refl second.tidy).jumped _ _)
  | whileLoop span condition body =>
    rw [checkStmt] at checked
    obtain ⟨test, tested, done, -, conditionLowered, -, bodyLowered, -, rfl⟩ :=
      lowerStmt_whileLoop_eq_ok_iff.mp lowered
    obtain ⟨between, conditionChecked, bodyChecked⟩ := bind_eq_ok_iff.mp checked
    have entered := silent.quiet (((Quiet.refl silent.tidy).createdAll
      ["while_test", "while_body", "while_out"]).jumped (graph.newKey 0) (graph.newKey 0))
    have yields := yields_lowerExpr targets condition entered.tidy tree.1
      (checkUsed_eq_ok_iff.mp conditionChecked).1 conditionLowered
    have inside := silent_lowerStmt targets body (entered.quiet (yields.branched [] _ _ _))
      tree.2.1 bodyChecked bodyLowered
    exact inside.quiet ((Quiet.refl inside.tidy).jumped _ _)
  | doWhile span body condition =>
    rw [checkStmt] at checked
    obtain ⟨done, test, tested, -, bodyLowered, -, conditionLowered, -, rfl⟩ :=
      lowerStmt_doWhile_eq_ok_iff.mp lowered
    obtain ⟨between, bodyChecked, conditionChecked⟩ := bind_eq_ok_iff.mp checked
    have entered := silent.quiet (((Quiet.refl silent.tidy).createdAll
      ["do_body", "do_test", "do_out"]).jumped (graph.newKey 0) (graph.newKey 0))
    have inside := silent_lowerStmt targets body entered tree.1.1 bodyChecked bodyLowered
    have testing := inside.quiet ((Quiet.refl inside.tidy).jumped (graph.newKey 1) (graph.newKey 1))
    have yields := yields_lowerExpr targets condition testing.tidy tree.2
      (checkUsed_eq_ok_iff.mp conditionChecked).1 conditionLowered
    exact testing.quiet (yields.branched [] _ _ _)
  | forLoop span initializer test after body =>
    rw [checkStmt] at checked
    obtain ⟨started, tested, done, ended, outer, begun, -, testLowered, bodyLowered,
      afterLowered, -, left, rfl⟩ := lowerStmt_forLoop_eq_ok_iff.mp lowered
    obtain ⟨_, beginChecked, rest⟩ := bind_eq_ok_iff.mp checked
    obtain ⟨_, testChecked, rest⟩ := bind_eq_ok_iff.mp rest
    obtain ⟨_, bodyChecked, rest⟩ := bind_eq_ok_iff.mp rest
    obtain ⟨_, afterChecked, -⟩ := bind_eq_ok_iff.mp rest
    have begins := silent_lowerForInitializer targets
      (silent.quiet (Quiet.refl silent.tidy).opened) tree.1 beginChecked begun
    have entered := begins.quiet (((Quiet.refl begins.tidy).createdAll (forTags after)).jumped
      (forBlocks started after).test (forBlocks started after).test)
    have tests := silent_lowerForTest targets entered tree.2.1 testChecked testLowered
    have inside := silent_lowerStmt targets body tests tree.2.2.2.1 bodyChecked bodyLowered
    have ends := silent_lowerForAfter targets inside tree.2.2.1 afterChecked afterLowered
    exact ends.quiet (((Quiet.refl ends.tidy).jumped _ _).closed left)
  | breakLoop span =>
    obtain ⟨loopTargets, rfl, -, rfl⟩ := lowerStmt_breakLoop_eq_ok_iff.mp lowered
    exact silent.quiet ((Quiet.refl silent.tidy).extended (.jump trivial) nofun)
  | continueLoop span =>
    obtain ⟨loopTargets, rfl, -, rfl⟩ := lowerStmt_continueLoop_eq_ok_iff.mp lowered
    exact silent.quiet ((Quiet.refl silent.tidy).extended (.jump trivial) nofun)
  | returnValue span value =>
    cases value with
    | none =>
      rw [lowerStmt, add_eq_ok_iff] at lowered
      obtain ⟨-, rfl⟩ := lowered
      exact silent.quiet ((Quiet.refl silent.tidy).extended (.ret nofun) nofun)
    | some value =>
      rw [checkStmt] at checked
      obtain ⟨slot, middle, valueLowered, -, rfl⟩ := lowerStmt_returnValue_some_eq_ok_iff.mp lowered
      have yields := yields_lowerExpr targets value silent.tidy tree
        (checkUsed_eq_ok_iff.mp checked).1 valueLowered
      refine silent.quiet (yields.quiet.extended (.ret ?_) nofun)
      rintro _ ⟨⟩
      exact yields.offers
  | empty span =>
    cases lowered
    exact silent

/-- Lowering statements that pass the checks looks at no result that does not exist. -/
theorem silent_lowerStmts (targets : PlainTargets defined isVoid) (statements : List Stmt)
    {graph next : Graph} {loop : Option LoopTargets} {inLoop : Bool} {state after : State}
    (silent : Silent isVoid graph) (tree : Stmt.AllWellFormed statements)
    (checked : checkStmts isVoid inLoop statements state = .ok after)
    (lowered : lowerStmts defined loop statements graph = .ok next) : Silent isVoid next := by
  cases statements with
  | nil =>
    cases lowered
    exact silent
  | cons first others =>
    rw [checkStmts] at checked
    obtain ⟨middle, firstLowered, othersLowered⟩ := lowerStmts_cons_eq_ok_iff.mp lowered
    obtain ⟨between, firstChecked, othersChecked⟩ := bind_eq_ok_iff.mp checked
    exact silent_lowerStmts targets others
      (silent_lowerStmt targets first silent tree.1 firstChecked firstLowered)
      tree.2 othersChecked othersLowered

end

/-! ## Functions -/

/-- The graph of a function that passes the checks looks at no result that does not exist. -/
theorem silent_lowerFunction (targets : PlainTargets defined isVoid) {function : FunctionDef}
    {warnings : List Warning} (tree : function.WellFormed)
    (checked : checkFunction isVoid function = .ok warnings)
    (lowered : lowerFunction defined function = .ok graph) : Silent isVoid graph := by
  obtain ⟨taken, inside, outer, declared, insideLowered, left, rfl⟩ :=
    lowerFunction_eq_ok_iff.mp lowered
  have took := (takes_parameters tree declared).took
  have empty : ∀ id block, taken.blocks.get? id = some block → ∃ label, block = .new label := by
    intro id block found
    rw [took.blocks_eq] at found
    have member : block ∈ (Graph.new function.name.name).blocks.entries :=
      List.mem_of_getElem? found
    exact ⟨_, List.mem_singleton.mp member⟩
  have noInstruction (place : BlockId × Nat) : taken.instructionAt? place = none := by
    rw [instructionAt?, Option.bind_eq_none_iff]
    intro block found
    obtain ⟨label, rfl⟩ := empty _ block found
    rfl
  have noTest (id : BlockId) : taken.testOf? id = none := by
    rw [testOf?, Option.bind_eq_none_iff]
    intro block found
    obtain ⟨label, rfl⟩ := empty id block found
    rfl
  have silent : Silent isVoid taken := by
    refine ⟨⟨took.ready.kept.laid, ?_, ?_, ?_⟩, ?_⟩
    · intro entry member
      obtain ⟨scope, inScopes, inScope⟩ := List.mem_flatten.mp member
      exact took.ready.kept.formed.scopes_known scope inScopes entry inScope
    · intro place instruction found
      rw [noInstruction] at found
      cases found
    · intro id slot found
      rw [noTest] at found
      cases found
    · intro place target function arguments found
      rw [noInstruction] at found
      cases found
  unfold checkFunction at checked
  split at checked
  · cases checked
  obtain ⟨after, bodyChecked, -⟩ := bind_eq_ok_iff.mp checked
  have done := silent_lowerStmts targets function.body.statements
    (silent.quiet (Quiet.refl silent.tidy).opened) tree.body bodyChecked insideLowered
  exact done.quiet ((Quiet.refl done.tidy).closed left)

theorem silent_lowerFunctions (targets : PlainTargets defined isVoid) {functions : List FunctionDef}
    {graphs : List Graph} {warnings : List Warning}
    (tree : ∀ function ∈ functions, function.WellFormed)
    (checked : checkFunctions isVoid functions = .ok warnings)
    (lowered : lowerFunctions defined functions = .ok graphs) :
    ∀ graph ∈ graphs, Silent isVoid graph := by
  induction functions generalizing graphs warnings with
  | nil =>
    cases lowered
    simp
  | cons first others ih =>
    rw [List.forall_mem_cons] at tree
    obtain ⟨_, firstChecked, rest⟩ := bind_eq_ok_iff.mp checked
    obtain ⟨_, othersChecked, -⟩ := bind_eq_ok_iff.mp rest
    obtain ⟨graph, firstLowered, rest⟩ := bind_eq_ok_iff.mp lowered
    obtain ⟨otherGraphs, othersLowered, graphs_eq⟩ := bind_eq_ok_iff.mp rest
    cases graphs_eq
    rw [List.forall_mem_cons]
    exact ⟨silent_lowerFunction targets tree.1 firstChecked firstLowered,
      ih tree.2 othersChecked othersLowered⟩

/-- A void function is called under its own name only. -/
theorem plainTargets_definesVoid {program : Program} (tree : program.WellFormed) :
    PlainTargets program.defines program.definesVoid := by
  intro name void
  by_cases isDefined : program.defines name = true
  · rwa [callTarget, if_pos isDefined] at void
  · rw [callTarget, if_neg isDefined] at void
    obtain ⟨function, member, named⟩ := List.any_eq_true.mp void
    have word : isWord function.name.name = true := (tree function member).name
    rw [Bool.and_eq_true, beq_iff_eq] at named
    rw [named.1, not_isWord_append] at word
    cases word

end SmallC.Lowering

namespace SmallC

open SmallC.Graph Lowering

/-- In the graphs of a program that passes the checks, the slot of a call of a void function is
mentioned by that call only. -/
theorem void_results_unobserved {text : List Char} {program : Program} {warnings : List Warning}
    {graphs : List Graph} (parsed : parseProgram text = .ok program)
    (checked : program.check = .ok warnings) (lowered : program.lower = .ok graphs) {graph : Graph}
    (member : graph ∈ graphs) {id : BlockId} {index : Nat} {target : Slot} {function : String}
    {arguments : List Slot}
    (found : graph.instructionAt? (id, index) = some (.call target function arguments))
    (void : program.definesVoid function = true) :
    graph.Unobserved (id, index) target arguments := by
  have tree := Program.wellFormed_of_parse parsed
  obtain ⟨_, functionsChecked⟩ := Program.checkFunctions_of_check checked
  have silent := silent_lowerFunctions (plainTargets_definesVoid tree) tree
    functionsChecked lowered graph member
  exact (silent.calls _ target function arguments found void).2

/-- The text of a program that calls a void function twice and uses its own variable after that. -/
def droppingText : String :=
  "void f(int a)\x7b\x7dint main()\x7bint x=1;(f(x));for(;x;f(x))x=g(x);return x;\x7d"

/-- The first of two calls of a void function. -/
theorem void_results_unobserved_dropping :
    ∃ program graphs graph, parseProgram droppingText.toList = .ok program ∧
      program.lower = .ok graphs ∧ graph ∈ graphs ∧ program.definesVoid "f" = true ∧
        graph.instructionAt? (⟨0⟩, 2) = some (.call ⟨2⟩ "f" [⟨0⟩]) ∧
        graph.Unobserved (⟨0⟩, 2) ⟨2⟩ [⟨0⟩] := by
  have evaluated : (parseProgram (Source.ofText droppingText).text).toOption.any (fun program =>
      program.check.toOption.isSome && program.lower.toOption.any fun graphs =>
        program.definesVoid "f" && graphs[1]?.any fun graph =>
          graph.instructionAt? (⟨0⟩, 2) == some (.call ⟨2⟩ "f" [⟨0⟩])) = true := by
    cbv
  obtain ⟨program, compilation, parsed, compiled, tested⟩ := exists_compiled_of_any evaluated
  obtain ⟨⟨warnings, checked⟩, lowered⟩ := lower_of_compile parsed compiled
  simp only [Bool.and_eq_true, Option.any_eq_true, beq_iff_eq] at tested
  obtain ⟨void, graph, graph_eq, found⟩ := tested
  have member : graph ∈ compilation.graphs := List.mem_of_getElem? graph_eq
  exact ⟨program, compilation.graphs, graph, parsed, lowered, member, void, found,
    void_results_unobserved parsed checked lowered member found void⟩

end SmallC
