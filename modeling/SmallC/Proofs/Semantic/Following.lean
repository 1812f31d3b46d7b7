import SmallC.Proofs.Scope.Distinct
import SmallC.Proofs.Semantic.Function
import SmallC.Proofs.Tree.Walk

/-!
# Checks along walks

A check that succeeds takes one step for each event of the walk through what it checks.  So what
holds of the state of a check follows from what holds at every single event.
-/

namespace SmallC

/-! ## Changes of scopes -/

namespace Scope

variable {α : Type} {name : String} {first second : α → α}

theorem declares_modify (scope : Scope α) :
    Scope.declares (Scope.modify name first scope) name = Scope.declares scope name := by
  induction scope with
  | nil => rfl
  | cons entry rest ih =>
    rcases entry with ⟨other, value⟩
    rw [Scope.modify]
    by_cases isName : (name == other) = true
    · simp [Scope.declares, List.lookup_cons, isName]
    · simpa [Scope.declares, List.lookup_cons, isName] using ih

theorem modify_modify (scope : Scope α) :
    Scope.modify name second (Scope.modify name first scope) =
      Scope.modify name (second ∘ first) scope := by
  induction scope with
  | nil => rfl
  | cons entry rest ih =>
    rcases entry with ⟨other, value⟩
    by_cases isName : (name == other) = true
    · simp [Scope.modify, isName]
    · simp [Scope.modify, isName, ih]

end Scope

namespace Scopes

variable {α : Type} {name : String} {first second : α → α}

theorem ext_all {left right : Scopes α} (all_eq : left.all = right.all) : left = right := by
  rcases left with ⟨leftInnermost, leftEnclosing⟩
  rcases right with ⟨rightInnermost, rightEnclosing⟩
  rcases List.cons.inj all_eq with ⟨rfl, rfl⟩
  rfl

theorem modifyIn_modifyIn (scopes : List (Scope α)) :
    modifyIn name second (modifyIn name first scopes) = modifyIn name (second ∘ first) scopes := by
  induction scopes with
  | nil => rfl
  | cons scope others ih =>
    by_cases here : Scope.declares scope name = true
    · simp [modifyIn, here, Scope.declares_modify, Scope.modify_modify]
    · simp [modifyIn, here, ih]

/-- Two changes of what one name stands for are one change. -/
theorem modify_modify (scopes : Scopes α) :
    (scopes.modify name first).modify name second = scopes.modify name (second ∘ first) := by
  apply ext_all
  rw [all_modify, all_modify, all_modify, modifyIn_modifyIn]

/-- A name that stands for nothing cannot be changed. -/
theorem modify_of_lookup?_eq_none {scopes : Scopes α} (unknown : scopes.lookup? name = none) :
    scopes.modify name first = scopes := by
  apply ext_all
  rw [all_modify]
  unfold lookup? at unknown
  generalize scopes.all = levels at unknown ⊢
  induction levels with
  | nil => rfl
  | cons scope others ih =>
    rw [List.findSome?_cons] at unknown
    cases found : scope.lookup name with
    | some value =>
      rw [found] at unknown
      cases unknown
    | none =>
      rw [found] at unknown
      rw [modifyIn, Scope.declares, found, Option.isSome_none, if_neg Bool.false_ne_true,
        ih unknown]

@[simp]
theorem depth_modify (scopes : Scopes α) : (scopes.modify name first).depth = scopes.depth := by
  have same_length (levels : List (Scope α)) :
      (modifyIn name first levels).length = levels.length := by
    induction levels with
    | nil => rfl
    | cons scope others ih =>
      rw [modifyIn]
      split
      · rfl
      · rw [List.length_cons, List.length_cons, ih]
  rw [depth, all_modify, same_length, depth]

/-- A stack of more than one scope can be closed, and has one scope less then. -/
theorem exists_leave?_of_depth {scopes : Scopes α} {count : Nat}
    (depth_eq : scopes.depth = count + 2) :
    ∃ outer, scopes.leave? = some outer ∧ outer.depth = count + 1 := by
  rcases scopes with ⟨innermost, _ | ⟨outer, others⟩⟩
  · cases depth_eq
  · exact ⟨⟨outer, others⟩, rfl, Nat.succ.inj depth_eq⟩

end Scopes

namespace Semantic

/-! ## Steps -/

/-- What one event does to the state of a check that succeeds.  Only variables are declared, and
they are declared inside of the scope of the parameters. -/
def Follows (before : State) (event : ScopeEvent) (after : State) : Prop :=
  match event with
  | .enter => after = before.enter
  | .leave => ∃ outer, before.scopes.leave? = some outer ∧
      after = ⟨outer, before.warnings ++ State.unusedWarnings before.scopes.innermost⟩
  | .parameter _ => False
  | .declare name => 1 < before.scopes.depth ∧ before.declare name = .ok after
  | .read name => before.read name = .ok after
  | .write name => after = before.assign name.name

/-- What the events of a walk do to the state of a check that succeeds, one after the other. -/
inductive Run : State → Walk → State → Prop where
  | nil {state : State} : Run state [] state
  | cons {before middle after : State} {event : ScopeEvent} {rest : Walk} :
      Follows before event middle → Run middle rest after → Run before (event :: rest) after

theorem Run.append {before middle after : State} {first second : Walk}
    (runs : Run before first middle) (others : Run middle second after) :
    Run before (first ++ second) after := by
  induction runs with
  | nil => exact others
  | cons follows _ ih => exact .cons follows (ih others)

/-- A run along a walk that closes every scope it opens. -/
structure Walks (before : State) (walk : Walk) (after : State) : Prop where
  run : Run before walk after
  depth_eq : after.scopes.depth = before.scopes.depth

namespace Walks

variable {state before middle after : State} {walk first second : Walk}

theorem nil : Walks state [] state :=
  ⟨.nil, rfl⟩

theorem append (walks : Walks before first middle) (others : Walks middle second after) :
    Walks before (first ++ second) after :=
  ⟨walks.run.append others.run, others.depth_eq.trans walks.depth_eq⟩

theorem read {name : Ident} (reads : before.read name = .ok after) :
    Walks before [.read name] after := by
  refine ⟨.cons reads .nil, ?_⟩
  unfold State.read at reads
  split at reads
  · cases reads
  · cases reads
    exact Scopes.depth_modify _

theorem write (name : Ident) : Walks before [.write name] (before.assign name.name) :=
  ⟨.cons rfl .nil, Scopes.depth_modify _⟩

theorem declare {name : Ident} (inside : 1 < before.scopes.depth)
    (declared : before.declare name = .ok after) : Walks before [.declare name] after := by
  refine ⟨.cons ⟨inside, declared⟩ .nil, ?_⟩
  unfold State.declare at declared
  split at declared
  · cases declared
  · split at declared
    · cases declared
    · cases declared
      rfl

/-- A scope around a walk. -/
theorem scope (walks : Walks before.enter walk after) :
    Walks before (.enter :: (walk ++ [ScopeEvent.leave])) after.leave := by
  have depth_eq : after.scopes.depth = (before.scopes.depth - 1) + 2 := by
    have nonempty : 0 < before.scopes.depth := Nat.succ_pos _
    have inner_eq : after.scopes.depth = before.scopes.depth + 1 := walks.depth_eq
    omega
  rcases Scopes.exists_leave?_of_depth depth_eq with ⟨outer, left, outer_depth⟩
  have left_eq : after.leave =
      ⟨outer, after.warnings ++ State.unusedWarnings after.scopes.innermost⟩ := by
    rw [State.leave, left]
  refine ⟨.cons rfl (walks.run.append (.cons ⟨outer, left, left_eq⟩ .nil)), ?_⟩
  rw [left_eq]
  exact outer_depth

theorem inside (walks : Walks before walk after) (deep : 1 < before.scopes.depth) :
    1 < after.scopes.depth :=
  walks.depth_eq ▸ deep

end Walks

/-! ## Expressions -/

variable {isVoid : String → Bool} {state after : State}

/-- A variable that was read stays read when it gets a value. -/
theorem assign_of_read {name : Ident} (reads : state.read name = .ok after) :
    after.assign name.name = after := by
  unfold State.read at reads
  split at reads
  · cases reads
  · cases reads
    rw [State.assign, Scopes.modify_modify]
    rfl

mutual

theorem walks_checkExpr (value : Expr) {state after : State}
    (checked : checkExpr value state = .ok after) :
    Walks state value.events after := by
  cases value with
  | literal _ =>
    cases checked
    exact .nil
  | identifier name => exact .read checked
  | group _ inner => exact walks_checkExpr inner checked
  | call _ callee arguments =>
    rw [checkExpr] at checked
    split at checked
    · cases checked
    · exact walks_checkExprs arguments checked
  | binary _ _ _ left right =>
    rw [checkExpr, bind_eq_ok_iff] at checked
    rcases checked with ⟨middle, leftChecked, rightChecked⟩
    exact (walks_checkExpr left leftChecked).append (walks_checkExpr right rightChecked)
  | unary _ _ _ operand => exact walks_checkExpr operand checked
  | step _ _ _ target => exact .read checked
  | assign _ target op assigned =>
    rcases checkExpr_assign_eq_ok_iff.mp checked with
      ⟨-, middle, last, valueChecked, targetRead, rfl⟩
    rw [Expr.events]
    apply (walks_checkExpr assigned valueChecked).append
    cases op with
    | none =>
      cases targetRead
      exact .write target
    | some operator =>
      have reads : middle.read target = .ok last := targetRead
      rw [assign_of_read reads]
      exact .read reads

theorem walks_checkExprs (values : List Expr) {state after : State}
    (checked : checkExprs values state = .ok after) :
    Walks state (Expr.eventsOfAll values) after := by
  cases values with
  | nil =>
    cases checked
    exact .nil
  | cons first others =>
    rw [checkExprs, bind_eq_ok_iff] at checked
    rcases checked with ⟨middle, firstChecked, othersChecked⟩
    exact (walks_checkExpr first firstChecked).append (walks_checkExprs others othersChecked)

end

theorem walks_checkUsed {value : Expr} (checked : checkUsed isVoid value state = .ok after) :
    Walks state value.events after := by
  rw [checkUsed, bind_eq_ok_iff] at checked
  rcases checked with ⟨-, -, valueChecked⟩
  exact walks_checkExpr value valueChecked

theorem walks_checkDiscarded {value : Expr}
    (checked : checkDiscarded isVoid value state = .ok after) : Walks state value.events after := by
  rw [checkDiscarded, bind_eq_ok_iff] at checked
  rcases checked with ⟨-, -, valueChecked⟩
  exact walks_checkExpr value valueChecked

theorem walks_checkOptional {check : Expr → State → Except SemanticError State}
    {value : Option Expr} (checked : checkOptional check value state = .ok after)
    (walks : ∀ value, check value state = .ok after → Walks state value.events after) :
    Walks state (Expr.eventsOfOption value) after := by
  cases value with
  | none =>
    cases checked
    exact .nil
  | some value => exact walks value checked

/-! ## Statements -/

section

variable (inside : 1 < state.scopes.depth)
include inside

theorem walks_checkDeclarator {declarator : Declarator}
    (checked : checkDeclarator isVoid declarator state = .ok after) :
    Walks state declarator.events after := by
  unfold checkDeclarator at checked
  unfold Declarator.events
  cases initializer_eq : declarator.initializer with
  | none =>
    rw [initializer_eq] at checked
    exact .declare inside checked
  | some value =>
    rw [initializer_eq] at checked
    simp only [pure_eq_ok, bind_eq_ok_iff, Except.ok.injEq] at checked
    rcases checked with ⟨-, -, declared, declares, last, valueChecked, rfl⟩
    exact (Walks.declare inside declares).append
      ((walks_checkExpr value valueChecked).append (.write declarator.name))

theorem walks_checkDeclarators {declarators : List Declarator}
    (checked : checkDeclarators isVoid declarators state = .ok after) :
    Walks state (Declarator.eventsOfAll declarators) after := by
  induction declarators generalizing state with
  | nil =>
    cases checked
    exact .nil
  | cons first others ih =>
    rw [checkDeclarators, bind_eq_ok_iff] at checked
    rcases checked with ⟨middle, firstChecked, othersChecked⟩
    have walks := walks_checkDeclarator inside firstChecked
    exact walks.append (ih (walks.inside inside) othersChecked)

theorem walks_checkForInitializer {initializer : Option ForInitializer}
    (checked : checkForInitializer isVoid initializer state = .ok after) :
    Walks state (ForInitializer.events initializer) after := by
  match initializer with
  | none =>
    cases checked
    exact .nil
  | some (.declaration declarators) => exact walks_checkDeclarators inside checked
  | some (.expression value) => exact walks_checkDiscarded checked

end

/-- A new scope lies inside of that of the parameters. -/
theorem inside_enter (state : State) : 1 < state.enter.scopes.depth :=
  Nat.succ_lt_succ (Nat.succ_pos _)

mutual

theorem walks_checkStmt {inLoop : Bool} (statement : Stmt) {state after : State}
    (inside : 1 < state.scopes.depth)
    (checked : checkStmt isVoid inLoop statement state = .ok after) :
    Walks state statement.events after := by
  cases statement with
  | declaration _ declarators => exact walks_checkDeclarators inside checked
  | expression _ value => exact walks_checkDiscarded checked
  | block _ statements =>
    simp only [checkStmt, pure_eq_ok, bind_eq_ok_iff, Except.ok.injEq] at checked
    rcases checked with ⟨last, statementsChecked, rfl⟩
    exact (walks_checkStmts statements (inside_enter state) statementsChecked).scope
  | ifThen _ condition positive =>
    rw [checkStmt, bind_eq_ok_iff] at checked
    rcases checked with ⟨middle, conditionChecked, positiveChecked⟩
    have walks := walks_checkUsed conditionChecked
    exact walks.append (walks_checkStmt positive (walks.inside inside) positiveChecked)
  | ifElse _ condition positive negative =>
    simp only [checkStmt, bind_eq_ok_iff] at checked
    rcases checked with ⟨middle, conditionChecked, next, positiveChecked, negativeChecked⟩
    have walks := walks_checkUsed conditionChecked
    have walksPositive := walks_checkStmt positive (walks.inside inside) positiveChecked
    have walksNegative := walks_checkStmt negative
      (walksPositive.inside (walks.inside inside)) negativeChecked
    exact walks.append (walksPositive.append walksNegative)
  | whileLoop _ condition body =>
    rw [checkStmt, bind_eq_ok_iff] at checked
    rcases checked with ⟨middle, conditionChecked, bodyChecked⟩
    have walks := walks_checkUsed conditionChecked
    exact walks.append (walks_checkStmt body (walks.inside inside) bodyChecked)
  | doWhile _ body condition =>
    rw [checkStmt, bind_eq_ok_iff] at checked
    rcases checked with ⟨middle, bodyChecked, conditionChecked⟩
    exact (walks_checkStmt body inside bodyChecked).append (walks_checkUsed conditionChecked)
  | forLoop _ initializer test step body =>
    simp only [checkStmt, pure_eq_ok, bind_eq_ok_iff, Except.ok.injEq] at checked
    rcases checked with ⟨started, initializerChecked, tested, testChecked, done, bodyChecked,
      last, stepChecked, rfl⟩
    have walksInitializer := walks_checkForInitializer (inside_enter state) initializerChecked
    have walksTest := walks_checkOptional testChecked fun _ => walks_checkUsed
    have walksBody := walks_checkStmt body
      (walksTest.inside (walksInitializer.inside (inside_enter state))) bodyChecked
    have walksStep := walks_checkOptional stepChecked fun _ => walks_checkDiscarded
    have walks := (walksInitializer.append (walksTest.append (walksBody.append walksStep))).scope
    simpa only [Stmt.events, List.append_assoc] using walks
  | breakLoop _ | continueLoop _ =>
    rw [checkStmt] at checked
    split at checked
    · cases checked
      exact .nil
    · cases checked
  | returnValue _ value => exact walks_checkOptional checked fun _ => walks_checkUsed
  | empty _ =>
    cases checked
    exact .nil

theorem walks_checkStmts {inLoop : Bool} (statements : List Stmt) {state after : State}
    (inside : 1 < state.scopes.depth)
    (checked : checkStmts isVoid inLoop statements state = .ok after) :
    Walks state (Stmt.eventsOfAll statements) after := by
  cases statements with
  | nil =>
    cases checked
    exact .nil
  | cons first others =>
    rw [checkStmts, bind_eq_ok_iff] at checked
    rcases checked with ⟨middle, firstChecked, othersChecked⟩
    have walks := walks_checkStmt first inside firstChecked
    exact walks.append (walks_checkStmts others (walks.inside inside) othersChecked)

end

end Semantic

end SmallC
