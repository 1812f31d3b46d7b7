import SmallC.Proofs.Graph.Operation

/-!
# When lowering succeeds

Lowering a construct succeeds exactly when lowering its parts does and the graph has room for what
the construct itself adds.  There is one equivalence for each construct, which says what the graph
between the parts is.
-/

namespace SmallC.Lowering

open SmallC.Graph

-- The equations of these definitions are used all over this module, so they are made here, once.
attribute [local simp] lowerExpr lowerArguments lowerStmt lowerStmts

variable {defined : String → Bool} {graph next : Graph} {slot : Slot} {name : Ident} {opSpan : Span}
  {right value condition : Expr} {make : Slot → Slot → Slot → Instruction}

/-! ## Single instructions -/

theorem constant_eq_ok_iff {value : Int32} :
    constant value graph = .ok (slot, next) ↔
      graph.CanTakeTemporary ∧ graph.HasBlock graph.current ∧ slot = graph.symbols.nextKey ∧
        next = graph.withTemporary.extended (.loadConstant slot value) := by
  simp only [constant, temporary_bind_eq_ok_iff, add_bind_eq_ok_iff, pure_eq_ok, Except.ok.injEq,
    Prod.mk.injEq]
  constructor
  · rintro ⟨can, known, rfl, rfl⟩
    exact ⟨can, known, rfl, rfl⟩
  · rintro ⟨can, known, rfl, rfl⟩
    exact ⟨can, known, rfl, rfl⟩

/-- The two instructions of a step operator. -/
def stepInstructions (op : StepOp) (fixity : Fixity) (target operand : Slot) :
    Instruction × Instruction :=
  match fixity with
  | .before => (.step op operand, .copy target operand)
  | .after => (.copy target operand, .step op operand)

theorem lowerStep_eq_ok_iff {op : StepOp} {fixity : Fixity} {operand : Slot} :
    lowerStep op fixity operand graph = .ok (slot, next) ↔
      graph.CanTakeTemporary ∧ graph.HasBlock graph.current ∧ slot = graph.symbols.nextKey ∧
        next = (graph.withTemporary.extended (stepInstructions op fixity slot operand).1).extended
          (stepInstructions op fixity slot operand).2 := by
  cases fixity
  all_goals
    simp only [lowerStep, temporary_bind_eq_ok_iff, add_bind_eq_ok_iff, pure_eq_ok, Except.ok.injEq,
      Prod.mk.injEq, stepInstructions]
    constructor
    · rintro ⟨can, known, _, rfl, rfl⟩
      exact ⟨can, known, rfl, rfl⟩
    · rintro ⟨can, known, rfl, rfl⟩
      exact ⟨can, known, hasBlock_changed.mpr known, rfl, rfl⟩

/-! ## Expressions -/

theorem lowerExpr_literal_eq_ok_iff {written : Literal} :
    lowerExpr defined (.literal written) graph = .ok (slot, next) ↔
      ∃ value, written.value = .ok value ∧ constant value graph = .ok (slot, next) := by
  simp only [lowerExpr, bind_eq_ok_iff]

theorem lowerExpr_identifier_eq_ok_iff :
    lowerExpr defined (.identifier name) graph = .ok (slot, next) ↔
      graph.scopes.lookup? name.name = some slot ∧ next = graph := by
  simp only [lowerExpr, bind_eq_ok_iff, resolve_eq_ok_iff, pure_eq_ok, Except.ok.injEq,
    Prod.mk.injEq]
  constructor
  · rintro ⟨_, found, rfl, rfl⟩
    exact ⟨found, rfl⟩
  · rintro ⟨found, rfl⟩
    exact ⟨_, found, rfl, rfl⟩

theorem lowerExpr_call_eq_ok_iff {span : Span} {callee : Ident} {arguments : List Expr} :
    lowerExpr defined (.call span callee arguments) graph = .ok (slot, next) ↔
      graph.CanTakeTemporary ∧ slot = graph.symbols.nextKey ∧
        ∃ slots middle,
          lowerArguments defined arguments graph.withTemporary = .ok (slots, middle) ∧
            middle.HasBlock middle.current ∧
              next = middle.extended (.call slot (callTarget defined callee.name) slots) := by
  rw [lowerExpr, temporary_bind_eq_ok_iff]
  simp only [↓add_bind_eq_ok_iff, bind_eq_ok_iff, pure_eq_ok, Except.ok.injEq, Prod.exists,
    Prod.mk.injEq]
  constructor
  · rintro ⟨can, slots, middle, lowered, known, rfl, rfl⟩
    exact ⟨can, rfl, slots, middle, lowered, known, rfl⟩
  · rintro ⟨can, rfl, slots, middle, lowered, known, rfl⟩
    exact ⟨can, slots, middle, lowered, known, rfl, rfl⟩

/-- The instruction of an operator that always evaluates both operands, given its target and its
operands. -/
def operator? : BinaryOp → Option (Slot → Slot → Slot → Instruction)
  | .arithmetic op => some (.arithmetic op)
  | .compare op => some (.compare op)
  | .logical _ => none

/-- An operator always evaluates both operands, or is a logical one. -/
theorem exists_operator_or_logical (op : BinaryOp) :
    (∃ make, operator? op = some make) ∨ ∃ logical, op = .logical logical := by
  cases op with
  | logical op => exact .inr ⟨op, rfl⟩
  | _ => exact .inl ⟨_, rfl⟩

theorem lowerExpr_operator {span : Span} {op : BinaryOp} {left : Expr}
    (strict : operator? op = some make) :
    lowerExpr defined (.binary span op opSpan left right) graph = (do
      let (target, graph) ← temporary graph
      let (leftSlot, graph) ← lowerExpr defined left graph
      let (rightSlot, graph) ← lowerExpr defined right graph
      let graph ← graph.add (make target leftSlot rightSlot)
      return (target, graph)) := by
  cases op with
  | logical _ => cases strict
  | _ => cases strict; rw [lowerExpr]

theorem lowerExpr_operator_eq_ok_iff {span : Span} {op : BinaryOp} {left : Expr}
    (strict : operator? op = some make) :
    lowerExpr defined (.binary span op opSpan left right) graph = .ok (slot, next) ↔
      graph.CanTakeTemporary ∧ slot = graph.symbols.nextKey ∧
        ∃ leftSlot leftGraph rightSlot rightGraph,
          lowerExpr defined left graph.withTemporary = .ok (leftSlot, leftGraph) ∧
            lowerExpr defined right leftGraph = .ok (rightSlot, rightGraph) ∧
              rightGraph.HasBlock rightGraph.current ∧
                next = rightGraph.extended (make slot leftSlot rightSlot) := by
  rw [lowerExpr_operator strict, temporary_bind_eq_ok_iff]
  simp only [↓add_bind_eq_ok_iff, bind_eq_ok_iff, pure_eq_ok, Except.ok.injEq, Prod.exists,
    Prod.mk.injEq]
  constructor
  · rintro ⟨can, leftSlot, leftGraph, leftLowered, rightSlot, rightGraph, rightLowered, known, rfl,
      rfl⟩
    exact ⟨can, rfl, leftSlot, leftGraph, rightSlot, rightGraph, leftLowered, rightLowered, known,
      rfl⟩
  · rintro ⟨can, rfl, leftSlot, leftGraph, rightSlot, rightGraph, leftLowered, rightLowered, known,
      rfl⟩
    exact ⟨can, leftSlot, leftGraph, leftLowered, rightSlot, rightGraph, rightLowered, known, rfl,
      rfl⟩

theorem lowerExpr_unary_eq_ok_iff {span : Span} {op : UnaryOp} {operand : Expr} :
    lowerExpr defined (.unary span op opSpan operand) graph = .ok (slot, next) ↔
      ∃ value middle, lowerExpr defined operand graph = .ok (value, middle) ∧
        middle.CanTakeTemporary ∧ middle.HasBlock middle.current ∧
          slot = middle.symbols.nextKey ∧
            next = (middle.withTemporary.extended (.copy slot value)).extended (.unary op slot) := by
  simp only [lowerExpr, ↓temporary_bind_eq_ok_iff, ↓add_bind_eq_ok_iff, bind_eq_ok_iff, pure_eq_ok,
    Except.ok.injEq, Prod.exists, Prod.mk.injEq]
  constructor
  · rintro ⟨value, middle, lowered, can, known, _, rfl, rfl⟩
    exact ⟨value, middle, lowered, can, known, rfl, rfl⟩
  · rintro ⟨value, middle, lowered, can, known, rfl, rfl⟩
    exact ⟨value, middle, lowered, can, known, hasBlock_changed.mpr known, rfl, rfl⟩

theorem lowerExpr_step_eq_ok_iff {span : Span} {op : StepOp} {fixity : Fixity} {target : Ident} :
    lowerExpr defined (.step span op fixity target) graph = .ok (slot, next) ↔
      ∃ operand, graph.scopes.lookup? target.name = some operand ∧
        lowerStep op fixity operand graph = .ok (slot, next) := by
  simp only [lowerExpr, bind_eq_ok_iff, resolve_eq_ok_iff]

theorem lowerExpr_assign_eq_ok_iff {span : Span} {target : Ident}
    {op : Option (ArithmeticOp × Span)} :
    lowerExpr defined (.assign span target op value) graph = .ok (slot, next) ↔
      ∃ valueSlot middle, lowerExpr defined value graph = .ok (valueSlot, middle) ∧
        middle.scopes.lookup? target.name = some slot ∧ middle.HasBlock middle.current ∧
          next = middle.extended (storeInstruction (op.map Prod.fst) slot valueSlot) := by
  simp only [lowerExpr, ↓add_bind_eq_ok_iff, bind_eq_ok_iff, pure_eq_ok, Except.ok.injEq,
    Prod.exists, Prod.mk.injEq, resolve_eq_ok_iff]
  constructor
  · rintro ⟨valueSlot, middle, lowered, _, found, known, rfl, rfl⟩
    exact ⟨valueSlot, middle, lowered, found, known, rfl⟩
  · rintro ⟨valueSlot, middle, lowered, found, known, rfl⟩
    exact ⟨valueSlot, middle, lowered, slot, found, known, rfl, rfl⟩

theorem lowerArguments_cons_eq_ok_iff {first : Expr} {others : List Expr} {slots : List Slot} :
    lowerArguments defined (first :: others) graph = .ok (slots, next) ↔
      ∃ firstSlot middle otherSlots, lowerExpr defined first graph = .ok (firstSlot, middle) ∧
        lowerArguments defined others middle = .ok (otherSlots, next) ∧
          slots = firstSlot :: otherSlots := by
  simp only [lowerArguments, bind_eq_ok_iff, pure_eq_ok, Except.ok.injEq, Prod.exists,
    Prod.mk.injEq]
  constructor
  · rintro ⟨firstSlot, middle, lowered, otherSlots, _, othersLowered, rfl, rfl⟩
    exact ⟨firstSlot, middle, otherSlots, lowered, othersLowered, rfl⟩
  · rintro ⟨firstSlot, middle, otherSlots, lowered, othersLowered, rfl⟩
    exact ⟨firstSlot, middle, lowered, otherSlots, next, othersLowered, rfl, rfl⟩

/-! ## Logical operators -/

/-- The tags of the blocks of a logical operator. -/
def logicalTags : LogicalOp → List String
  | .and => ["and_rhs", "and_true", "and_out"]
  | .or => ["or_rhs", "or_true", "or_out"]

/-- The next three blocks of a graph, as the blocks of a logical operator. -/
def logicalBlocks (graph : Graph) : LogicalBlocks :=
  ⟨graph.newKey 0, graph.newKey 1, graph.newKey 2⟩

/-- Where a logical operator goes on when its left operand is true. -/
def LogicalBlocks.onTrue (blocks : LogicalBlocks) : LogicalOp → BlockId
  | .and => blocks.right
  | .or => blocks.whenTrue

/-- Where a logical operator goes on when its left operand is false. -/
def LogicalBlocks.onFalse (blocks : LogicalBlocks) : LogicalOp → BlockId
  | .and => blocks.out
  | .or => blocks.right

/-- The graph in which the right operand of a logical operator is lowered. -/
def logicalSplit (op : LogicalOp) (left : Slot) (graph : Graph) : Graph :=
  (graph.createdAll (logicalTags op)).branched left ((logicalBlocks graph).onTrue op)
    ((logicalBlocks graph).onFalse op) (logicalBlocks graph).right

/-- The graph after both operands of a logical operator, where its result becomes one. -/
def logicalTrue (blocks : LogicalBlocks) (result right : Slot) (graph : Graph) : Graph :=
  (graph.branched right blocks.whenTrue blocks.out blocks.whenTrue).extended
    (.loadConstant result 1)

theorem createLogicalBlocks_eq (op : LogicalOp) (graph : Graph) :
    createLogicalBlocks op graph = (logicalBlocks graph, graph.createdAll (logicalTags op)) := by
  cases op <;> simp [createLogicalBlocks, createBlock_eq, logicalBlocks, logicalTags, createdAll]

theorem splitLogical_eq_ok_iff {op : LogicalOp} {left : Slot} {blocks : LogicalBlocks} :
    splitLogical op left graph = .ok (blocks, next) ↔
      (graph.createdAll (logicalTags op)).CanEnter (logicalBlocks graph).right ∧
        blocks = logicalBlocks graph ∧ next = logicalSplit op left graph := by
  cases op
  all_goals
    rw [splitLogical, createLogicalBlocks_eq]
    simp only [branchTo_enterBlock_bind_eq_ok_iff, pure_eq_ok, Except.ok.injEq, Prod.mk.injEq]
    exact and_congr_right fun _ => and_congr eq_comm eq_comm

theorem joinLogical_eq_ok_iff {blocks : LogicalBlocks} {result right : Slot} :
    joinLogical blocks result right graph = .ok next ↔
      graph.CanEnter blocks.whenTrue ∧
        (logicalTrue blocks result right graph).CanEnter blocks.out ∧
          next = (logicalTrue blocks result right graph).jumped blocks.out blocks.out := by
  rw [joinLogical, branchTo_enterBlock_bind_eq_ok_iff, add_bind_eq_ok_iff,
    jumpTo_enterBlock_eq_ok_iff]
  constructor
  · rintro ⟨canTrue, -, canOut, rfl⟩
    exact ⟨canTrue, canOut, rfl⟩
  · rintro ⟨canTrue, canOut, rfl⟩
    exact ⟨canTrue, hasBlock_changed.mp canOut.known, canOut, rfl⟩

theorem lowerExpr_logical_eq_ok_iff {span : Span} {op : LogicalOp} {left : Expr} :
    lowerExpr defined (.binary span (.logical op) opSpan left right) graph = .ok (slot, next) ↔
      ∃ started leftSlot leftGraph rightSlot rightGraph, constant 0 graph = .ok (slot, started) ∧
        lowerExpr defined left started = .ok (leftSlot, leftGraph) ∧
          (leftGraph.createdAll (logicalTags op)).CanEnter (logicalBlocks leftGraph).right ∧
            lowerExpr defined right (logicalSplit op leftSlot leftGraph) =
                .ok (rightSlot, rightGraph) ∧
              joinLogical (logicalBlocks leftGraph) slot rightSlot rightGraph = .ok next := by
  simp only [lowerExpr, bind_eq_ok_iff, pure_eq_ok, Except.ok.injEq, Prod.exists, Prod.mk.injEq,
    splitLogical_eq_ok_iff]
  constructor
  · rintro ⟨_, started, begun, leftSlot, leftGraph, leftLowered, _, _, ⟨can, rfl, rfl⟩, rightSlot,
      rightGraph, rightLowered, _, joined, rfl, rfl⟩
    exact ⟨started, leftSlot, leftGraph, rightSlot, rightGraph, begun, leftLowered, can,
      rightLowered, joined⟩
  · rintro ⟨started, leftSlot, leftGraph, rightSlot, rightGraph, begun, leftLowered, can,
      rightLowered, joined⟩
    exact ⟨slot, started, begun, leftSlot, leftGraph, leftLowered, _, _, ⟨can, rfl, rfl⟩, rightSlot,
      rightGraph, rightLowered, next, joined, rfl, rfl⟩

/-! ## Declarations -/

theorem lowerEffect_eq_ok_iff :
    lowerEffect defined value graph = .ok next ↔
      ∃ slot, lowerExpr defined value graph = .ok (slot, next) := by
  simp only [lowerEffect, bind_eq_ok_iff, pure_eq_ok, Except.ok.injEq, Prod.exists]
  constructor
  · rintro ⟨slot, _, lowered, rfl⟩
    exact ⟨slot, lowered⟩
  · rintro ⟨slot, lowered⟩
    exact ⟨slot, next, lowered, rfl⟩

/-- A declaration without an initial value. -/
theorem lowerDeclarator_none_eq_ok_iff {span : Span} :
    lowerDeclarator defined ⟨span, name, none⟩ graph = .ok next ↔
      graph.CanDeclare name.name ∧ next = graph.declared name.name := by
  rw [lowerDeclarator, declareVariable_bind_eq_ok_iff]
  exact and_congr_right fun _ => ⟨fun done => (Except.ok.inj done).symm, fun done => done ▸ rfl⟩

/-- A declaration with an initial value. -/
theorem lowerDeclarator_some_eq_ok_iff {span : Span} :
    lowerDeclarator defined ⟨span, name, some value⟩ graph = .ok next ↔
      graph.CanDeclare name.name ∧
        ∃ valueSlot middle,
          lowerExpr defined value (graph.declared name.name) = .ok (valueSlot, middle) ∧
            middle.HasBlock middle.current ∧
              next = middle.extended (.copy graph.symbols.nextKey valueSlot) := by
  rw [lowerDeclarator, declareVariable_bind_eq_ok_iff]
  simp only [bind_eq_ok_iff, Prod.exists, add_eq_ok_iff]

theorem lowerDeclarators_cons_eq_ok_iff {first : Declarator} {others : List Declarator} :
    lowerDeclarators defined (first :: others) graph = .ok next ↔
      ∃ middle, lowerDeclarator defined first graph = .ok middle ∧
        lowerDeclarators defined others middle = .ok next := by
  simp only [lowerDeclarators, bind_eq_ok_iff]

/-! ## Statements -/

variable {loop : Option LoopTargets} {span : Span}

theorem lowerStmt_block_eq_ok_iff {statements : List Stmt} :
    lowerStmt defined loop (.block span statements) graph = .ok next ↔
      ∃ inside outer,
        lowerStmts defined loop statements (graph.inScopes graph.scopes.enter) = .ok inside ∧
          inside.scopes.leave? = some outer ∧ next = inside.inScopes outer := by
  simp only [lowerStmt, bind_eq_ok_iff, enterScope_eq, leaveScope_eq_ok_iff, exists_and_left]

theorem lowerStmts_cons_eq_ok_iff {first : Stmt} {others : List Stmt} :
    lowerStmts defined loop (first :: others) graph = .ok next ↔
      ∃ middle, lowerStmt defined loop first graph = .ok middle ∧
        lowerStmts defined loop others middle = .ok next := by
  simp only [lowerStmts, bind_eq_ok_iff]

theorem lowerStmt_ifThen_eq_ok_iff {positive : Stmt} :
    lowerStmt defined loop (.ifThen span condition positive) graph = .ok next ↔
      ∃ test tested done, lowerExpr defined condition graph = .ok (test, tested) ∧
        (tested.createdAll ["if_true", "if_out"]).CanEnter (tested.newKey 0) ∧
          lowerStmt defined loop positive
              ((tested.createdAll ["if_true", "if_out"]).branched test (tested.newKey 0)
                (tested.newKey 1) (tested.newKey 0)) = .ok done ∧
            done.CanEnter (tested.newKey 1) ∧
              next = done.jumped (tested.newKey 1) (tested.newKey 1) := by
  rw [lowerStmt]
  simp only [createBlock_eq, newKey_created, ↓branchTo_enterBlock_bind_eq_ok_iff,
    ↓jumpTo_enterBlock_eq_ok_iff, bind_eq_ok_iff, Prod.exists, exists_and_left]
  rfl

theorem lowerStmt_ifElse_eq_ok_iff {positive negative : Stmt} :
    lowerStmt defined loop (.ifElse span condition positive negative) graph = .ok next ↔
      ∃ test tested done otherwise, lowerExpr defined condition graph = .ok (test, tested) ∧
        (tested.createdAll ["if_true", "if_false", "if_out"]).CanEnter (tested.newKey 0) ∧
          lowerStmt defined loop positive
              ((tested.createdAll ["if_true", "if_false", "if_out"]).branched test
                (tested.newKey 0) (tested.newKey 1) (tested.newKey 0)) = .ok done ∧
            done.CanEnter (tested.newKey 1) ∧
              lowerStmt defined loop negative (done.jumped (tested.newKey 2) (tested.newKey 1)) =
                  .ok otherwise ∧
                otherwise.CanEnter (tested.newKey 2) ∧
                  next = otherwise.jumped (tested.newKey 2) (tested.newKey 2) := by
  rw [lowerStmt]
  simp only [createBlock_eq, newKey_created, ↓branchTo_enterBlock_bind_eq_ok_iff,
    ↓jumpTo_enterBlock_bind_eq_ok_iff, ↓jumpTo_enterBlock_eq_ok_iff, bind_eq_ok_iff, Prod.exists, exists_and_left]
  rfl

theorem lowerStmt_whileLoop_eq_ok_iff {body : Stmt} :
    lowerStmt defined loop (.whileLoop span condition body) graph = .ok next ↔
      ∃ test tested done,
        (graph.createdAll ["while_test", "while_body", "while_out"]).CanEnter (graph.newKey 0) ∧
          lowerExpr defined condition
              ((graph.createdAll ["while_test", "while_body", "while_out"]).jumped
                (graph.newKey 0) (graph.newKey 0)) = .ok (test, tested) ∧
            tested.CanEnter (graph.newKey 1) ∧
              lowerStmt defined (some ⟨graph.newKey 0, graph.newKey 2⟩) body
                  (tested.branched test (graph.newKey 1) (graph.newKey 2) (graph.newKey 1)) =
                  .ok done ∧
                done.CanEnter (graph.newKey 2) ∧
                  next = done.jumped (graph.newKey 0) (graph.newKey 2) := by
  rw [lowerStmt]
  simp only [createBlock_eq, newKey_created, ↓jumpTo_enterBlock_bind_eq_ok_iff,
    ↓branchTo_enterBlock_bind_eq_ok_iff, ↓jumpTo_enterBlock_eq_ok_iff, bind_eq_ok_iff, Prod.exists, exists_and_left]
  rfl

theorem lowerStmt_doWhile_eq_ok_iff {body : Stmt} :
    lowerStmt defined loop (.doWhile span body condition) graph = .ok next ↔
      ∃ done test tested,
        (graph.createdAll ["do_body", "do_test", "do_out"]).CanEnter (graph.newKey 0) ∧
          lowerStmt defined (some ⟨graph.newKey 1, graph.newKey 2⟩) body
              ((graph.createdAll ["do_body", "do_test", "do_out"]).jumped (graph.newKey 0)
                (graph.newKey 0)) = .ok done ∧
            done.CanEnter (graph.newKey 1) ∧
              lowerExpr defined condition (done.jumped (graph.newKey 1) (graph.newKey 1)) =
                  .ok (test, tested) ∧
                tested.CanEnter (graph.newKey 2) ∧
                  next = tested.branched test (graph.newKey 0) (graph.newKey 2)
                    (graph.newKey 2) := by
  rw [lowerStmt]
  simp only [createBlock_eq, newKey_created, ↓jumpTo_enterBlock_bind_eq_ok_iff,
    ↓branchTo_enterBlock_eq_ok_iff, bind_eq_ok_iff, Prod.exists, exists_and_left]
  rfl

/-! ## For statements -/

/-- The tags of the blocks of a `for` statement. -/
def forTags : Option Expr → List String
  | none => ["for_test", "for_body", "for_out"]
  | some _ => ["for_test", "for_body", "for_after", "for_out"]

/-- The next blocks of a graph, as the blocks of a `for` statement. -/
def forBlocks (graph : Graph) : Option Expr → ForBlocks
  | none => ⟨graph.newKey 0, graph.newKey 1, none, graph.newKey 2⟩
  | some value =>
    ⟨graph.newKey 0, graph.newKey 1, some (graph.newKey 2, value), graph.newKey 3⟩

theorem createForBlocks_eq (after : Option Expr) (graph : Graph) :
    createForBlocks after graph = (forBlocks graph after, graph.createdAll (forTags after)) := by
  cases after <;> simp [createForBlocks, createBlock_eq, forBlocks, forTags, createdAll]

/-- A missing test of a `for` statement, and the block of the body. -/
theorem lowerForTest_none_eq_ok_iff {blocks : ForBlocks} :
    (lowerForTest defined blocks none graph >>= enterBlock blocks.body) = .ok next ↔
      graph.CanEnter blocks.body ∧ next = graph.jumped blocks.body blocks.body :=
  jumpTo_enterBlock_eq_ok_iff

/-- The test of a `for` statement, and the block of the body. -/
theorem lowerForTest_some_eq_ok_iff {blocks : ForBlocks} :
    (lowerForTest defined blocks (some value) graph >>= enterBlock blocks.body) = .ok next ↔
      ∃ test tested, lowerExpr defined value graph = .ok (test, tested) ∧
        tested.CanEnter blocks.body ∧
          next = tested.branched test blocks.body blocks.out blocks.body := by
  simp only [lowerForTest, bind_assoc, ↓branchTo_enterBlock_eq_ok_iff, bind_eq_ok_iff, Prod.exists]

/-- What a `for` statement does after its body. -/
theorem lowerForAfter_some_eq_ok_iff {test body id out : BlockId} :
    lowerForAfter defined ⟨test, body, some (id, value), out⟩ graph = .ok next ↔
      graph.CanEnter id ∧ ∃ slot, lowerExpr defined value (graph.jumped id id) = .ok (slot, next) := by
  rw [lowerForAfter, jumpTo_enterBlock_bind_eq_ok_iff, lowerEffect_eq_ok_iff]

theorem lowerStmt_forLoop_eq_ok_iff {initializer : Option ForInitializer}
    {test after : Option Expr} {body : Stmt} :
    lowerStmt defined loop (.forLoop span initializer test after body) graph = .ok next ↔
      ∃ started tested done ended outer,
        lowerForInitializer defined initializer (graph.inScopes graph.scopes.enter) =
            .ok started ∧
          (started.createdAll (forTags after)).CanEnter (forBlocks started after).test ∧
            (lowerForTest defined (forBlocks started after) test
                ((started.createdAll (forTags after)).jumped (forBlocks started after).test
                  (forBlocks started after).test) >>=
              enterBlock (forBlocks started after).body) = .ok tested ∧
              lowerStmt defined (some (forBlocks started after).targets) body tested = .ok done ∧
                lowerForAfter defined (forBlocks started after) done = .ok ended ∧
                  ended.CanEnter (forBlocks started after).out ∧
                    ended.scopes.leave? = some outer ∧
                      next = (ended.jumped (forBlocks started after).test
                        (forBlocks started after).out).inScopes outer := by
  rw [lowerStmt]
  simp only [enterScope_eq, createForBlocks_eq]
  simp only [↓jumpTo_enterBlock_bind_eq_ok_iff, bind_eq_ok_iff, leaveScope_eq_ok_iff]
  constructor
  · rintro ⟨started, begun, can, split, testLowered, tested, entered, done, bodyLowered, ended,
      afterLowered, canOut, outer, left, rfl⟩
    exact ⟨started, tested, done, ended, outer, begun, can, ⟨split, testLowered, entered⟩,
      bodyLowered, afterLowered, canOut, left, rfl⟩
  · rintro ⟨started, tested, done, ended, outer, begun, can, ⟨split, testLowered, entered⟩,
      bodyLowered, afterLowered, canOut, left, rfl⟩
    exact ⟨started, begun, can, split, testLowered, tested, entered, done, bodyLowered, ended,
      afterLowered, canOut, outer, left, rfl⟩

/-! ## Jumps -/

theorem lowerStmt_breakLoop_eq_ok_iff :
    lowerStmt defined loop (.breakLoop span) graph = .ok next ↔
      ∃ targets, loop = some targets ∧ graph.HasBlock graph.current ∧
        next = graph.extended (.jump targets.onBreak) := by
  cases loop <;> simp [lowerStmt, innermostLoop, add_eq_ok_iff]

theorem lowerStmt_continueLoop_eq_ok_iff :
    lowerStmt defined loop (.continueLoop span) graph = .ok next ↔
      ∃ targets, loop = some targets ∧ graph.HasBlock graph.current ∧
        next = graph.extended (.jump targets.onContinue) := by
  cases loop <;> simp [lowerStmt, innermostLoop, add_eq_ok_iff]

theorem lowerStmt_returnValue_some_eq_ok_iff :
    lowerStmt defined loop (.returnValue span (some value)) graph = .ok next ↔
      ∃ slot middle, lowerExpr defined value graph = .ok (slot, middle) ∧
        middle.HasBlock middle.current ∧ next = middle.extended (.ret (some slot)) := by
  simp only [lowerStmt, bind_eq_ok_iff, Prod.exists, add_eq_ok_iff]

/-! ## Functions -/

/-- Functions are lowered when each of them is. -/
theorem lowerFunctions_eq_ok_iff {functions : List FunctionDef} {graphs : List Graph} :
    lowerFunctions defined functions = .ok graphs ↔
      List.Forall₂ (fun function graph => lowerFunction defined function = .ok graph)
        functions graphs := by
  induction functions generalizing graphs with
  | nil => simp [lowerFunctions, eq_comm]
  | cons first others ih =>
    simp only [lowerFunctions, bind_eq_ok_iff, pure_eq_ok, Except.ok.injEq, ih]
    constructor
    · rintro ⟨graph, firstLowered, rest, each, rfl⟩
      exact .cons firstLowered each
    · rintro (_ | ⟨firstLowered, each⟩)
      exact ⟨_, firstLowered, _, each, rfl⟩

end SmallC.Lowering
