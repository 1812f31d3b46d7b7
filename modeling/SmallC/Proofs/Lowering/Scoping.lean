import SmallC.Proofs.Lowering.Function
import SmallC.Proofs.Semantic.Function

/-!
# Checks and lowering

The checks and lowering go through a program in the same order and keep the same names in scope.  So
where lowering succeeds, the checks can only fail for what lowering does not look at: the results of
`void` functions and calls of variables.  Where the checks succeed, lowering does not fail for a
name, a jump or a literal.
-/

namespace SmallC

/-! ## Literals -/

/-- The body of a closed character literal is longer than the number of characters it denotes. -/
theorem Piece.count_lt_length_charBody (text : List Char)
    (closed : (Piece.charBody text).closed = true) :
    (Piece.charBody text).count < (Piece.charBody text).chars.length := by
  fun_induction Piece.charBody text with
  | case1 | case2 => cases closed
  | case3 => simp
  | case4 => cases closed
  | case5 c rest body ih => exact Nat.lt_succ_of_lt (Nat.succ_lt_succ (ih closed))
  | case6 c rest _ _ _ _ body ih => exact Nat.succ_lt_succ (ih closed)

theorem CharLiteral.denoted?_ne_none {text : List Char} (nonempty : text ≠ []) :
    CharLiteral.denoted? text ≠ none := by
  unfold CharLiteral.denoted?
  split <;> simp_all

/-- A well-formed literal has a value. -/
theorem Literal.WellFormed.exists_value {literal : Literal} (formed : literal.WellFormed) :
    ∃ value, literal.value = .ok value := by
  cases kind_eq : literal.kind with
  | integer =>
    rw [Literal.WellFormed, kind_eq] at formed
    rw [Literal.value, kind_eq]
    obtain ⟨nonempty, digits, bounded⟩ := formed
    exact ⟨_, IntegerLiteral.value_digits nonempty digits (by omega)⟩
  | character =>
    rw [Literal.WellFormed, kind_eq] at formed
    rw [Literal.value, kind_eq]
    obtain ⟨body, text_eq, closed, single⟩ := formed
    have long := Piece.count_lt_length_charBody body closed
    have nonempty : CharLiteral.unquoted literal.text.toList ≠ [] := by
      rw [text_eq]
      simp only [CharLiteral.unquoted]
      split
      · intro dropped
        have length_eq := congrArg List.length dropped
        rw [List.length_dropLast, List.length_nil] at length_eq
        omega
      · simp
    obtain ⟨c, denoted⟩ := Option.ne_none_iff_exists'.mp (CharLiteral.denoted?_ne_none nonempty)
    refine ⟨Int32.ofNat c.toNat, ?_⟩
    simp only [CharLiteral.value, denoted]

/-! ## Names in scope -/

/-- Whether an error is about names in scope or about jumps out of loops. -/
def SemanticCause.isScoping : SemanticCause → Bool
  | .redeclaration _ => true
  | .shadowsParameter _ => true
  | .duplicateParameter _ => true
  | .undeclaredVariable _ => true
  | .breakOutsideLoop => true
  | .continueOutsideLoop => true
  | .voidResultUsed _ => false
  | .calleeIsVariable _ => false
  | .duplicateFunction _ => false
  | .missingMain => false

namespace Semantic

/-- The checks and the graph have the same names in scope. -/
def State.Tracks (state : State) (scopes : Scopes Slot) : Prop :=
  Scopes.Related (fun _ _ => True) state.scopes scopes.named

variable {state after : State} {scopes : Scopes Slot}

section

variable (tracks : state.Tracks scopes)
include tracks

theorem State.Tracks.of_named_eq {others : Scopes Slot} (named_eq : others.named = scopes.named) :
    state.Tracks others := by
  rwa [State.Tracks, named_eq]

theorem State.Tracks.assign (name : String) : (state.assign name).Tracks scopes :=
  Scopes.Related.modify_left tracks name fun _ _ _ => trivial

theorem State.Tracks.enter : state.enter.Tracks scopes.enter := by
  unfold State.Tracks
  rw [Scopes.named_enter]
  exact Scopes.Related.enter tracks

/-- A scope that a graph closes is closed by the checks. -/
theorem State.Tracks.leave {outer : Scopes Slot} (left : scopes.leave? = some outer) :
    state.leave.Tracks outer := by
  have related := Scopes.Related.leave? tracks
  rw [Scopes.leave?_named, left, Option.map_some] at related
  unfold State.leave
  generalize state.scopes.leave? = found at related
  cases related with
  | some outerRelated => exact outerRelated

/-- The checks find a name exactly when the graph does. -/
theorem State.Tracks.isSome_lookup?_eq {name : Ident} (tree : name.WellFormed) :
    (state.scopes.lookup? name.name).isSome = (scopes.lookup? name.name).isSome := by
  rw [Scopes.Related.isSome_lookup? tracks, Scopes.lookup?_named _ (isTemporary_of_isWord tree)]

end

/-! ## Outcomes -/

/-- A check that succeeds with the names of a graph in scope, or fails for another reason than
scoping. -/
def Accepts (scopes : Scopes Slot) : Except SemanticError State → Prop
  | .ok after => after.Tracks scopes
  | .error error => error.cause.isScoping = false

theorem Accepts.of_named_eq {others : Scopes Slot} {check : Except SemanticError State}
    (accepts : Accepts scopes check) (named_eq : others.named = scopes.named) :
    Accepts others check := by
  cases check with
  | ok after => exact State.Tracks.of_named_eq accepts named_eq
  | error error => exact accepts

theorem Accepts.assign {check : Except SemanticError State} (accepts : Accepts scopes check)
    (name : String) : Accepts scopes (check >>= fun after => pure (after.assign name)) := by
  cases check with
  | ok after => exact State.Tracks.assign accepts name
  | error error => exact accepts

/-- A fault that is not about scoping, if a check succeeds. -/
def Unrefused (check : Except SemanticError State) (fault : Fault) : Prop :=
  (∃ after, check = .ok after) → fault.isScoping = false

theorem unrefused_error (error : SemanticError) (fault : Fault) : Unrefused (.error error) fault :=
  nofun

variable {isVoid : String → Bool} {check : Except SemanticError State}

variable {error : SemanticError}

theorem isScoping_refuseCall {found : Option (Ident × Span)}
    (refused : refuseCall found = .error error) : error.cause.isScoping = false := by
  cases found with
  | none => cases refused
  | some call =>
    cases refused
    rfl

variable {value : Expr}

theorem isScoping_valueDiscarded (refused : valueDiscarded isVoid value = .error error) :
    error.cause.isScoping = false := by
  unfold valueDiscarded at refused
  split at refused
  · exact isScoping_refuseCall refused
  · exact isScoping_refuseCall refused
  · exact isScoping_refuseCall refused

end Semantic

namespace Lowering

open SmallC.Graph Semantic

variable {α β : Type} {defined isVoid : String → Bool} {graph next : Graph}
  {scopes : Scopes Slot} {state : Semantic.State} {check : Except SemanticError Semantic.State}
  {checkNext : Semantic.State → Except SemanticError Semantic.State}

/-- Lowering accords with a check: it succeeds only where the check does, up to what lowering does not
look at, and then both have the same names in scope; and it does not fail for scoping where the check
succeeds. -/
def Accords (scopes : α → Scopes Slot) (check : Except SemanticError Semantic.State)
    (lower : Except Fault α) : Prop :=
  Outcome (Unrefused check) (fun result => Accepts (scopes result) check) lower

/-- One part after another. -/
theorem Accords.andThen {scopes : α → Scopes Slot} {others : β → Scopes Slot}
    {lower : Except Fault α} {lowerNext : α → Except Fault β} (accords : Accords scopes check lower)
    (rest : ∀ result after, after.Tracks (scopes result) →
      Accords others (checkNext after) (lowerNext result)) :
    Accords others (check >>= checkNext) (lower >>= lowerNext) := by
  cases lower with
  | error fault =>
    rintro ⟨last, checked⟩
    obtain ⟨after, accepted, -⟩ := bind_eq_ok_iff.mp checked
    exact accords ⟨after, accepted⟩
  | ok result =>
    cases check with
    | ok after => exact rest result after accords
    | error error =>
      exact .of_eq (fun _ _ => accords) fun fault _ => unrefused_error error fault

/-- A check before another one that does not look at names in scope. -/
theorem Accords.after {scopes : α → Scopes Slot} {lower : Except Fault α}
    {refusal : Except SemanticError Unit} (accords : Accords scopes check lower)
    (grounds : ∀ error, refusal = .error error → error.cause.isScoping = false) :
    Accords scopes (refusal >>= fun _ => check) lower := by
  cases refusal with
  | error error =>
    exact .of_eq (fun _ _ => grounds error rfl) fun fault _ => unrefused_error error fault
  | ok _ => exact accords

/-- Lowering an expression accords with a check and leaves the variables in scope as they are. -/
def AccordsIn (scopes : Scopes Slot) (check : Except SemanticError Semantic.State)
    (lower : Except Fault (α × Graph)) : Prop :=
  Giving (Unrefused check)
    (fun _ next => next.scopes.named = scopes.named ∧ Accepts scopes check) lower

theorem AccordsIn.andThen {lower : Except Fault (α × Graph)}
    {lowerNext : α × Graph → Except Fault (β × Graph)} (tracks : state.Tracks scopes)
    (accords : AccordsIn scopes check lower)
    (rest : ∀ value next after, next.scopes.named = scopes.named → after.Tracks scopes →
      AccordsIn scopes (checkNext after) (lowerNext (value, next))) :
    AccordsIn scopes (check >>= checkNext) (lower >>= lowerNext) := by
  cases lower with
  | error fault =>
    rintro ⟨last, checked⟩
    obtain ⟨after, accepted, -⟩ := bind_eq_ok_iff.mp checked
    exact accords ⟨after, accepted⟩
  | ok read =>
    obtain ⟨same, accepts⟩ := accords
    cases check with
    | ok after => exact rest read.1 read.2 after same accepts
    | error error =>
      -- The names stay the same whatever the check says, so any state that tracks them will do.
      refine .of_eq (fun last lowered => ⟨?_, accepts⟩) fun fault _ => unrefused_error error fault
      exact (Outcome.of_eq_ok (rest read.1 read.2 state same tracks) lowered).1

/-- A check that fails for another reason than scoping. -/
theorem AccordsIn.refused {lower : Except Fault (α × Graph)}
    (accords : AccordsIn scopes check lower) (grounds : error.cause.isScoping = false) :
    AccordsIn scopes (.error error) lower :=
  .of_eq (fun _ lowered => ⟨(Outcome.of_eq_ok accords lowered).1, grounds⟩)
    fun fault _ => unrefused_error error fault

theorem AccordsIn.accords {lower : Except Fault (α × Graph)}
    (accords : AccordsIn scopes check lower) : Accords (·.2.scopes) check lower :=
  Outcome.mono accords fun _ ⟨same, accepts⟩ => accepts.of_named_eq same

/-! ## Steps that scoping does not depend on -/

theorem quiet_modifyBlock (id : BlockId) (change : BasicBlock → BasicBlock) (graph : Graph) :
    Outcome (Unrefused check) (fun next => next.scopes.named = graph.scopes.named)
      (graph.modifyBlock id change) := by
  unfold modifyBlock
  cases graph.blocks.modify id change with
  | error error => exact fun _ => rfl
  | ok blocks => rfl

theorem quiet_enterBlock (id : BlockId) (graph : Graph) :
    Outcome (Unrefused check) (fun next => next.scopes.named = graph.scopes.named)
      (enterBlock id graph) := by
  unfold enterBlock appendBlock Graph.block
  split
  · cases graph.blocks.get id <;> exact fun _ => rfl
  · rfl

/-- The current block gets its exits and another one is entered. -/
theorem quiet_enter (id : BlockId) (change : BasicBlock → BasicBlock) (graph : Graph) :
    Outcome (Unrefused check) (fun next => next.scopes.named = graph.scopes.named)
      (graph.modifyBlock graph.current change >>= enterBlock id) :=
  (quiet_modifyBlock _ change graph).bind fun linked same =>
    (quiet_enterBlock id linked).mono fun _ sameNext => sameNext.trans same

theorem quiet_enter_bind {holds : α → Prop} {id : BlockId} {change : BasicBlock → BasicBlock}
    {graph : Graph} {after : Graph → Except Fault α}
    (rest : ∀ next, next.scopes.named = graph.scopes.named →
      Outcome (Unrefused check) holds (after next)) :
    Outcome (Unrefused check) holds
      (graph.modifyBlock graph.current change >>= fun linked => enterBlock id linked >>= after) := by
  rw [← bind_assoc]
  exact (quiet_enter id change graph).bind rest

theorem quiet_add (instruction : Instruction) (graph : Graph) :
    Outcome (Unrefused check) (fun next => next.scopes.named = graph.scopes.named)
      (graph.add instruction) :=
  quiet_modifyBlock _ _ graph

theorem quiet_temporary (graph : Graph) :
    Giving (Unrefused check) (fun _ next => next.scopes.named = graph.scopes.named)
      (temporary graph) := by
  refine .of_eq ?ok fun fault failed => ?fails
  case ok =>
    rintro ⟨target, next⟩ taken
    obtain ⟨-, rfl, rfl⟩ := temporary_eq_ok_iff.mp taken
    exact named_withTemporary graph
  case fails =>
    have isTemp := isTemporary_temporaryName graph.nextTemporary
    exact (outcome_declareVariable (fun _ _ => by simp [Fault.isScoping, isTemp])
      (fun _ _ => by simp [Fault.isScoping, isTemp]) fun _ _ => rfl).of_eq_error failed

theorem quiet_constant (value : Int32) (graph : Graph) :
    Giving (Unrefused check) (fun _ next => next.scopes.named = graph.scopes.named)
      (constant value graph) := by
  rw [constant]
  refine (quiet_temporary graph).bind fun target started same => ?_
  exact (quiet_add _ started).bind fun next sameNext => sameNext.trans same

theorem quiet_lowerStep (op : StepOp) (fixity : Fixity) (operand : Slot) (graph : Graph) :
    Giving (Unrefused check) (fun _ next => next.scopes.named = graph.scopes.named)
      (lowerStep op fixity operand graph) := by
  rw [lowerStep]
  refine (quiet_temporary graph).bind fun target started same => ?_
  cases fixity
  all_goals
    refine (quiet_add _ started).bind fun middle sameMiddle => ?_
    exact (quiet_add _ middle).bind fun next sameNext => sameNext.trans (sameMiddle.trans same)

theorem quiet_splitLogical (op : LogicalOp) (left : Slot) (graph : Graph) :
    Giving (Unrefused check) (fun _ next => next.scopes.named = graph.scopes.named)
      (splitLogical op left graph) := by
  rw [splitLogical, createLogicalBlocks_eq]
  cases op
  all_goals
    refine quiet_enter_bind fun next same => ?_
    rw [createdAll_scopes] at same
    exact same

theorem quiet_joinLogical (blocks : LogicalBlocks) (result right : Slot) (graph : Graph) :
    Outcome (Unrefused check) (fun next => next.scopes.named = graph.scopes.named)
      (joinLogical blocks result right graph) := by
  rw [joinLogical]
  refine quiet_enter_bind fun isTrue same => ?_
  refine (quiet_add _ isTrue).bind fun filled sameFilled => ?_
  exact (quiet_enter _ _ filled).mono fun _ sameNext => sameNext.trans (sameFilled.trans same)

/-! ## Expressions -/

theorem lookup?_eq_of_named {name : Ident} (tree : name.WellFormed)
    (same : graph.scopes.named = scopes.named) :
    graph.scopes.lookup? name.name = scopes.lookup? name.name := by
  have isVariable := isTemporary_of_isWord tree
  rw [← Scopes.lookup?_named _ isVariable, same, Scopes.lookup?_named _ isVariable]

/-- Reading a variable accords with looking it up. -/
theorem outcome_resolve_read {name : Ident} (tree : name.WellFormed)
    (same : graph.scopes.named = scopes.named) (tracks : state.Tracks scopes) :
    Outcome (Unrefused (state.read name)) (fun _ => Accepts scopes (state.read name))
      (resolve name.name graph) := by
  have found_eq := tracks.isSome_lookup?_eq tree
  rw [← lookup?_eq_of_named tree same] at found_eq
  unfold resolve Graph.lookup? State.read
  cases read : state.scopes.lookup? name.name <;>
    cases found : graph.scopes.lookup? name.name <;> simp only [read, found] at found_eq
  case none.none => exact unrefused_error _ _
  case some.some => exact Scopes.Related.modify_left tracks name.name fun _ _ _ => trivial
  all_goals cases found_eq

mutual

/-- Lowering an expression accords with checking it. -/
theorem accords_lowerExpr (value : Expr) {graph : Graph} {state : Semantic.State}
    (tree : value.WellFormed) (same : graph.scopes.named = scopes.named)
    (tracks : state.Tracks scopes) :
    AccordsIn scopes (checkExpr value state) (lowerExpr defined value graph) := by
  cases value with
  | literal written =>
    obtain ⟨number, value_eq⟩ := tree.exists_value
    rw [lowerExpr, value_eq, ok_bind]
    exact (quiet_constant number graph).mono fun _ sameNext => ⟨sameNext.trans same, tracks⟩
  | identifier name =>
    rw [lowerExpr, checkExpr]
    exact (outcome_resolve_read tree same tracks).bind fun _ accepts => ⟨same, accepts⟩
  | group span inner =>
    rw [lowerExpr, checkExpr]
    exact accords_lowerExpr inner tree same tracks
  | call span callee arguments =>
    have accords : AccordsIn scopes (checkExprs arguments state)
        (lowerExpr defined (.call span callee arguments) graph) := by
      rw [lowerExpr]
      refine (quiet_temporary graph).bind fun target started sameStarted => ?_
      refine (accords_lowerArguments arguments tree.2 (sameStarted.trans same) tracks).bind
        fun slots middle ⟨sameMiddle, accepts⟩ => ?_
      exact (quiet_add _ middle).bind fun _ sameNext => ⟨sameNext.trans sameMiddle, accepts⟩
    rw [checkExpr]
    split
    · exact accords.refused rfl
    · exact accords
  | binary span op opSpan left right =>
    rw [checkExpr]
    rcases exists_operator_or_logical op with ⟨make, strict⟩ | ⟨op, rfl⟩
    · rw [lowerExpr_operator strict]
      refine (quiet_temporary graph).bind fun target started sameStarted => ?_
      refine (accords_lowerExpr left tree.1 (sameStarted.trans same) tracks).andThen tracks
        fun leftSlot leftGraph after sameLeft afterTracks => ?_
      refine (accords_lowerExpr right tree.2 sameLeft afterTracks).bind
        fun rightSlot rightGraph ⟨sameRight, accepts⟩ => ?_
      exact (quiet_add _ rightGraph).bind fun _ sameNext => ⟨sameNext.trans sameRight, accepts⟩
    · rw [lowerExpr]
      refine (quiet_constant 0 graph).bind fun result started sameStarted => ?_
      refine (accords_lowerExpr left tree.1 (sameStarted.trans same) tracks).andThen
        tracks fun leftSlot leftGraph after sameLeft afterTracks => ?_
      refine (quiet_splitLogical op leftSlot leftGraph).bind fun blocks split sameSplit => ?_
      refine (accords_lowerExpr right tree.2 (sameSplit.trans sameLeft)
        afterTracks).bind fun rightSlot rightGraph ⟨sameRight, accepts⟩ => ?_
      exact (quiet_joinLogical blocks result rightSlot rightGraph).bind
        fun _ sameNext => ⟨sameNext.trans sameRight, accepts⟩
  | unary span op opSpan operand =>
    rw [lowerExpr, checkExpr]
    refine (accords_lowerExpr operand tree same tracks).bind
      fun operandSlot middle ⟨sameMiddle, accepts⟩ => ?_
    refine (quiet_temporary middle).bind fun target started sameStarted => ?_
    refine (quiet_add _ started).bind fun copied sameCopied => ?_
    exact (quiet_add _ copied).bind fun _ sameNext =>
      ⟨sameNext.trans (sameCopied.trans (sameStarted.trans sameMiddle)), accepts⟩
  | step span op fixity target =>
    rw [lowerExpr, checkExpr]
    refine (outcome_resolve_read tree same tracks).bind fun operand accepts => ?_
    exact (quiet_lowerStep op fixity operand graph).mono
      fun _ sameNext => ⟨sameNext.trans same, accepts⟩
  | assign span target op value =>
    have found_eq := tracks.isSome_lookup?_eq tree.1
    rw [checkExpr]
    -- The target is looked up before the value, and read after it if there is an operator.
    cases found : scopes.lookup? target.name with
    | none =>
      rw [found, Option.isSome_none, Option.isSome_eq_false_iff] at found_eq
      rw [if_pos found_eq]
      refine .of_eq (fun read lowered => ?_) fun fault _ => unrefused_error _ fault
      obtain ⟨valueSlot, middle, valueLowered, foundLater, -⟩ :=
        lowerExpr_assign_eq_ok_iff.mp lowered
      have sameMiddle := ((accords_lowerExpr value tree.2 same tracks).of_eq_ok valueLowered).1
      rw [lookup?_eq_of_named tree.1 sameMiddle, found] at foundLater
      cases foundLater
    | some slot =>
      rw [found, Option.isSome_some] at found_eq
      rw [lowerExpr, if_neg (by simp [Option.isSome_iff_ne_none.mp found_eq])]
      refine (accords_lowerExpr value tree.2 same tracks).andThen tracks
        fun valueSlot middle after sameMiddle afterTracks => ?_
      have resolved : resolve target.name middle = .ok slot :=
        resolve_eq_ok_iff.mpr ((lookup?_eq_of_named tree.1 sameMiddle).trans found)
      dsimp only
      rw [resolved, ok_bind]
      refine (quiet_add _ middle).bind fun _ sameNext => ⟨sameNext.trans sameMiddle, ?_⟩
      cases op with
      | none => exact afterTracks.assign target.name
      | some written =>
        have accepts := (outcome_resolve_read tree.1 sameMiddle afterTracks).of_eq_ok resolved
        exact accepts.assign target.name

theorem accords_lowerArguments (arguments : List Expr) {graph : Graph} {state : Semantic.State}
    (tree : Expr.AllWellFormed arguments) (same : graph.scopes.named = scopes.named)
    (tracks : state.Tracks scopes) :
    AccordsIn scopes (checkExprs arguments state) (lowerArguments defined arguments graph) := by
  cases arguments with
  | nil => exact ⟨same, tracks⟩
  | cons first others =>
    rw [lowerArguments, checkExprs]
    refine (accords_lowerExpr first tree.1 same tracks).andThen tracks
      fun slot middle after sameMiddle afterTracks => ?_
    exact (accords_lowerArguments others tree.2 sameMiddle afterTracks).bind fun _ _ both => both

end

/-- An expression whose value is used. -/
theorem accords_checkUsed (tree : value.WellFormed) (tracks : state.Tracks graph.scopes) :
    Accords (·.2.scopes) (checkUsed isVoid value state) (lowerExpr defined value graph) :=
  (accords_lowerExpr value tree rfl tracks).accords.after fun _ => isScoping_refuseCall

/-- An expression whose value is not used. -/
theorem accords_checkDiscarded (tree : value.WellFormed) (tracks : state.Tracks graph.scopes) :
    Accords Graph.scopes (checkDiscarded isVoid value state) (lowerEffect defined value graph) := by
  have accords : Accords (·.2.scopes) (checkDiscarded isVoid value state)
      (lowerExpr defined value graph) :=
    (accords_lowerExpr value tree rfl tracks).accords.after fun _ => isScoping_valueDiscarded
  exact accords.bind fun _ accepts => accepts

/-! ## Declarations -/

/-- Declaring a variable accords with checking its declaration. -/
theorem accords_declare {name : Ident} (tree : name.WellFormed)
    (tracks : state.Tracks graph.scopes) :
    Accords (·.2.scopes) (state.declare name) (graph.declareVariable name.name .int).accepted := by
  have isVariable := isTemporary_of_isWord tree
  have free := Scopes.Related.declaresHere tracks name.name
  have visible := Scopes.Related.hidesParameter tracks name.name
  rw [Scopes.declaresHere_named _ isVariable] at free
  rw [Scopes.hidesParameter_named _ isVariable] at visible
  refine .of_eq ?ok fun fault failed => ?fails
  case ok =>
    rintro ⟨slot, next⟩ declared
    obtain ⟨can, rfl, rfl⟩ := declareVariable_eq_ok_iff.mp declared
    rw [can.free] at free
    rw [can.visible] at visible
    simp only [State.declare, free, visible, Bool.false_eq_true, if_false, Accepts, State.Tracks]
    rw [declared_scopes, placed_scopes, Scopes.named_declare _ isVariable]
    exact Scopes.Related.declare tracks name.name trivial
  case fails =>
    refine (outcome_declareVariable ?twice ?hides fun _ _ => rfl).of_eq_error failed
    case twice =>
      rintro here ⟨after, checked⟩
      rw [State.declare, free, here, if_pos rfl] at checked
      cases checked
    case hides =>
      rintro hidden ⟨after, checked⟩
      rw [State.declare, visible, hidden, if_pos rfl] at checked
      split at checked
      · cases checked
      · cases checked

theorem accords_lowerDeclarator {declarator : Declarator} (tree : declarator.WellFormed)
    (tracks : state.Tracks graph.scopes) :
    Accords Graph.scopes (checkDeclarator isVoid declarator state)
      (lowerDeclarator defined declarator graph) := by
  obtain ⟨span, name, initializer⟩ := declarator
  cases initializer with
  | none => exact (accords_declare tree.1 tracks).bind fun _ accepts => accepts
  | some value =>
    refine Accords.after ?_ fun _ => isScoping_refuseCall
    refine (accords_declare tree.1 tracks).andThen fun declared after afterTracks => ?_
    refine (accords_lowerExpr value tree.2 rfl afterTracks).accords.andThen
      fun read last lastTracks => ?_
    exact (quiet_add _ read.2).mono fun _ same =>
      (lastTracks.assign name.name).of_named_eq same

theorem accords_lowerDeclarators (declarators : List Declarator) {graph : Graph}
    {state : Semantic.State} (tree : ∀ declarator ∈ declarators, declarator.WellFormed)
    (tracks : state.Tracks graph.scopes) :
    Accords Graph.scopes (checkDeclarators isVoid declarators state)
      (lowerDeclarators defined declarators graph) := by
  induction declarators generalizing graph state with
  | nil => exact tracks
  | cons first others ih =>
    rw [List.forall_mem_cons] at tree
    rw [lowerDeclarators, checkDeclarators]
    exact (accords_lowerDeclarator tree.1 tracks).andThen
      fun _ _ afterTracks => ih tree.2 afterTracks

theorem accords_lowerForInitializer {initializer : Option ForInitializer}
    (tree : ForInitializer.WellFormed initializer) (tracks : state.Tracks graph.scopes) :
    Accords Graph.scopes (checkForInitializer isVoid initializer state)
      (lowerForInitializer defined initializer graph) := by
  rcases initializer with _ | declarators | value
  · exact tracks
  · exact accords_lowerDeclarators declarators tree tracks
  · exact accords_checkDiscarded tree tracks

/-! ## Statements -/

theorem accords_lowerForTest (blocks : ForBlocks) {test : Option Expr}
    (tree : Expr.OptionWellFormed test) (tracks : state.Tracks graph.scopes) :
    Accords Graph.scopes (checkOptional (checkUsed isVoid) test state)
      (lowerForTest defined blocks test graph) := by
  cases test with
  | none => exact (quiet_modifyBlock _ _ graph).mono fun _ same => tracks.of_named_eq same
  | some value =>
    refine (accords_checkUsed tree tracks).bind fun read accepts => ?_
    exact (quiet_modifyBlock _ _ read.2).mono fun _ same => accepts.of_named_eq same

theorem accords_lowerForAfter (start : Graph) {after : Option Expr}
    (tree : Expr.OptionWellFormed after) (tracks : state.Tracks graph.scopes) :
    Accords Graph.scopes (checkOptional (checkDiscarded isVoid) after state)
      (lowerForAfter defined (forBlocks start after) graph) := by
  cases after with
  | none => exact tracks
  | some value =>
    exact quiet_enter_bind fun entered same =>
      accords_checkDiscarded tree (tracks.of_named_eq same)

theorem accords_leaveScope (tracks : state.Tracks graph.scopes) :
    Accords Graph.scopes (.ok state.leave) graph.leaveScope := by
  unfold leaveScope
  cases left : graph.scopes.leave? with
  | none => exact fun _ => rfl
  | some outer => exact tracks.leave left

mutual

/-- Lowering a statement accords with checking it. -/
theorem accords_lowerStmt (statement : Stmt) {graph : Graph} {loop : Option LoopTargets}
    {state : Semantic.State} (tree : statement.WellFormed)
    (tracks : state.Tracks graph.scopes) :
    Accords Graph.scopes (checkStmt isVoid loop.isSome statement state)
      (lowerStmt defined loop statement graph) := by
  cases statement with
  | declaration span declarators =>
    rw [lowerStmt, checkStmt]
    exact accords_lowerDeclarators declarators tree tracks
  | expression span value =>
    rw [lowerStmt, checkStmt]
    exact accords_checkDiscarded tree tracks
  | block span statements =>
    rw [lowerStmt, checkStmt]
    exact (accords_lowerStmts statements tree tracks.enter).andThen
      fun _ _ insideTracks => accords_leaveScope insideTracks
  | ifThen span condition positive =>
    rw [lowerStmt, checkStmt]
    refine (accords_checkUsed tree.1 tracks).andThen fun read after afterTracks => ?_
    refine quiet_enter_bind fun inside same => ?_
    refine (accords_lowerStmt positive tree.2.1 (afterTracks.of_named_eq same)).bind
      fun done accepts => ?_
    exact (quiet_enter _ _ done).mono fun _ sameNext => accepts.of_named_eq sameNext
  | ifElse span condition positive negative =>
    rw [lowerStmt, checkStmt]
    refine (accords_checkUsed tree.1 tracks).andThen fun read after afterTracks => ?_
    refine quiet_enter_bind fun inside same => ?_
    refine (accords_lowerStmt positive tree.2.1.1 (afterTracks.of_named_eq same)).andThen
      fun done between betweenTracks => ?_
    refine quiet_enter_bind fun other sameOther => ?_
    refine (accords_lowerStmt negative tree.2.2.1
      (betweenTracks.of_named_eq sameOther)).bind fun otherwise accepts => ?_
    exact (quiet_enter _ _ otherwise).mono fun _ sameNext => accepts.of_named_eq sameNext
  | whileLoop span condition body =>
    rw [lowerStmt, checkStmt]
    refine quiet_enter_bind fun testing same => ?_
    refine (accords_checkUsed tree.1 (tracks.of_named_eq same)).andThen
      fun read after afterTracks => ?_
    refine quiet_enter_bind fun inside sameInside => ?_
    refine (accords_lowerStmt body tree.2.1 (afterTracks.of_named_eq sameInside)).bind
      fun done accepts => ?_
    exact (quiet_enter _ _ done).mono fun _ sameNext => accepts.of_named_eq sameNext
  | doWhile span body condition =>
    rw [lowerStmt, checkStmt]
    refine quiet_enter_bind fun inside same => ?_
    refine (accords_lowerStmt body tree.1.1 (tracks.of_named_eq same)).andThen
      fun done after afterTracks => ?_
    refine quiet_enter_bind fun testing sameTesting => ?_
    refine (accords_checkUsed tree.2 (afterTracks.of_named_eq sameTesting)).bind
      fun read accepts => ?_
    exact (quiet_enter _ _ read.2).mono fun _ sameNext => accepts.of_named_eq sameNext
  | forLoop span initializer test after body =>
    rw [lowerStmt, checkStmt]
    refine (accords_lowerForInitializer tree.1 tracks.enter).andThen
      fun started first firstTracks => ?_
    rw [createForBlocks_eq]
    refine quiet_enter_bind fun testing sameTesting => ?_
    refine (accords_lowerForTest _ tree.2.1 ((firstTracks.of_named_eq
      (by simp)).of_named_eq sameTesting)).andThen fun tested second secondTracks => ?_
    refine (quiet_enterBlock _ tested).bind fun inside sameInside => ?_
    refine (accords_lowerStmt body tree.2.2.2.1
      (secondTracks.of_named_eq sameInside)).andThen fun done third thirdTracks => ?_
    refine (accords_lowerForAfter started tree.2.2.1 thirdTracks).andThen
      fun ended last lastTracks => ?_
    exact quiet_enter_bind fun out sameOut => accords_leaveScope (lastTracks.of_named_eq sameOut)
  | breakLoop span | continueLoop span =>
    rw [lowerStmt, checkStmt]
    cases loop with
    | none => exact unrefused_error _ _
    | some targets => exact (quiet_add _ graph).mono fun _ same => tracks.of_named_eq same
  | returnValue span value =>
    rw [checkStmt]
    cases value with
    | none =>
      rw [lowerStmt]
      exact (quiet_add _ graph).mono fun _ same => tracks.of_named_eq same
    | some value =>
      rw [lowerStmt]
      refine (accords_checkUsed tree tracks).bind fun read accepts => ?_
      exact (quiet_add _ read.2).mono fun _ same => accepts.of_named_eq same
  | empty span => exact tracks

theorem accords_lowerStmts (statements : List Stmt) {graph : Graph} {loop : Option LoopTargets}
    {state : Semantic.State} (tree : Stmt.AllWellFormed statements)
    (tracks : state.Tracks graph.scopes) :
    Accords Graph.scopes (checkStmts isVoid loop.isSome statements state)
      (lowerStmts defined loop statements graph) := by
  cases statements with
  | nil => exact tracks
  | cons first others =>
    rw [lowerStmts, checkStmts]
    exact (accords_lowerStmt first tree.1 tracks).andThen
      fun _ _ afterTracks => accords_lowerStmts others tree.2 afterTracks

end

end Lowering

end SmallC
