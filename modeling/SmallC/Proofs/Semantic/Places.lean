import SmallC.Proofs.Result
import SmallC.Proofs.Scope.Distinct
import SmallC.Proofs.Tree.Spans
import SmallC.Semantic.Check

/-!
# Places of semantic errors and warnings

The checks report no place of their own: every span of an error or a warning is a span of the tree,
or the end of its text.  So what holds of all spans of a tree holds of all spans that are reported.
-/

namespace SmallC.Semantic

variable {holds : Span → Prop} {isVoid : String → Bool} {state : State}
  {change : Variable → Variable} {name : Ident} {value : Expr}

/-! ## State -/

/-- Something holds of the span of every variable in scope and of every warning so far. -/
structure State.EverySpan (holds : Span → Prop) (state : State) : Prop where
  inScope : ∀ scope ∈ state.scopes.all, ∀ entry ∈ scope, holds entry.2.span
  warnings : ∀ warning ∈ state.warnings, holds warning.span

/-- A check ends with a state, or with an error, of whose spans something holds. -/
abbrev Checked (holds : Span → Prop) : Except SemanticError State → Prop :=
  Outcome (fun error => holds error.span) (State.EverySpan holds)

/-- Changes of inScope that keep their spans. -/
theorem forall_mem_modify {name : String} {scope : Scope Variable}
    (keeps : ∀ entry, (change entry).span = entry.span)
    (every : ∀ entry ∈ scope, holds entry.2.span) :
    ∀ entry ∈ Scope.modify name change scope, holds entry.2.span := by
  induction scope with
  | nil => exact every
  | cons first others ih =>
    obtain ⟨other, value⟩ := first
    rw [List.forall_mem_cons] at every
    rw [Scope.modify]
    split
    · exact List.forall_mem_cons.mpr ⟨(keeps value).symm ▸ every.1, every.2⟩
    · exact List.forall_mem_cons.mpr ⟨every.1, ih every.2⟩

theorem forall_mem_modifyIn {name : String} {scopes : List (Scope Variable)}
    (keeps : ∀ entry, (change entry).span = entry.span)
    (every : ∀ scope ∈ scopes, ∀ entry ∈ scope, holds entry.2.span) :
    ∀ scope ∈ Scopes.modifyIn name change scopes, ∀ entry ∈ scope, holds entry.2.span := by
  induction scopes with
  | nil => exact every
  | cons first others ih =>
    rw [List.forall_mem_cons] at every
    rw [Scopes.modifyIn]
    split
    · exact List.forall_mem_cons.mpr ⟨forall_mem_modify keeps every.1, every.2⟩
    · exact List.forall_mem_cons.mpr ⟨every.1, ih every.2⟩

theorem holds_of_mem_unusedWarnings {scope : Scope Variable}
    (every : ∀ entry ∈ scope, holds entry.2.span) :
    ∀ warning ∈ State.unusedWarnings scope, holds warning.span := by
  intro warning member
  simp only [State.unusedWarnings, List.mem_map, List.mem_mergeSort, List.mem_filter] at member
  obtain ⟨entry, ⟨found, -⟩, rfl⟩ := member
  exact every entry found

namespace State.EverySpan

section

variable (every : state.EverySpan holds)
include every

theorem enter : state.enter.EverySpan holds := by
  refine ⟨?_, every.warnings⟩
  exact List.forall_mem_cons.mpr ⟨nofun, every.inScope⟩

theorem leave : state.leave.EverySpan holds := by
  unfold State.leave
  split
  · exact every
  · rename_i outer left
    have inScope := every.inScope
    rw [Scopes.all_of_leave? left, List.forall_mem_cons] at inScope
    exact ⟨inScope.2,
      List.forall_mem_append.mpr ⟨every.warnings, holds_of_mem_unusedWarnings inScope.1⟩⟩

theorem assign (name : String) : (state.assign name).EverySpan holds := by
  have keeps (entry : Variable) : entry.assigned.span = entry.span := by
    unfold Variable.assigned
    split <;> rfl
  refine ⟨?_, every.warnings⟩
  rw [State.assign, Scopes.all_modify]
  exact forall_mem_modifyIn keeps every.inScope

theorem read (good : holds name.span) : Checked holds (state.read name) := by
  unfold State.read
  split
  · exact good
  · refine ⟨?_, List.forall_mem_append.mpr ⟨every.warnings, ?_⟩⟩
    · rw [Scopes.all_modify]
      exact forall_mem_modifyIn (fun _ => rfl) every.inScope
    · split
      · exact List.forall_mem_singleton.mpr good
      · exact nofun

theorem declare (good : holds name.span) : Checked holds (state.declare name) := by
  unfold State.declare
  split
  · exact good
  · split
    · exact good
    · have inScope := List.forall_mem_cons.mp every.inScope
      exact ⟨List.forall_mem_cons.mpr
        ⟨List.forall_mem_cons.mpr ⟨good, inScope.1⟩, inScope.2⟩, every.warnings⟩

end

end State.EverySpan

/-! ## Results of void functions -/

mutual

theorem holds_of_findCall? {wanted : String → Bool} {callee : Ident} {span : Span} :
    (value : Expr) → value.EverySpan holds → value.findCall? wanted = some (callee, span) →
      holds span
  | .literal _, _, found | .identifier _, _, found => nomatch found
  | .group _ inner, every, found => holds_of_findCall? inner every.2 found
  | .call _ name arguments, every, found => by
      rw [Expr.findCall?] at found
      split at found
      · cases found
        exact every.1
      · exact holds_of_findCallIn? arguments every.2.2 found
  | .binary _ _ _ left right, every, found => by
      rw [Expr.findCall?, Option.or_eq_some_iff] at found
      rcases found with found | ⟨-, found⟩
      · exact holds_of_findCall? left every.2.2.1 found
      · exact holds_of_findCall? right every.2.2.2 found
  | .unary _ _ _ operand, every, found => holds_of_findCall? operand every.2.2 found
  | .step _ _ _ _, _, found => nomatch found
  | .assign _ _ _ value, every, found => holds_of_findCall? value every.2.2.2 found

theorem holds_of_findCallIn? {wanted : String → Bool} {callee : Ident} {span : Span} :
    (values : List Expr) → Expr.AllEverySpan holds values →
      Expr.findCallIn? wanted values = some (callee, span) → holds span
  | [], _, found => nomatch found
  | first :: others, every, found => by
      rw [Expr.findCallIn?, Option.or_eq_some_iff] at found
      rcases found with found | ⟨-, found⟩
      · exact holds_of_findCall? first every.1 found
      · exact holds_of_findCallIn? others every.2 found

end

theorem refuseCall_places {found : Option (Ident × Span)} {after : Unit → Prop}
    (every : ∀ callee span, found = some (callee, span) → holds span) (ends : after ()) :
    Outcome (fun error => holds error.span) after (refuseCall found) := by
  rcases found with _ | ⟨callee, span⟩
  · exact ends
  · exact every callee span rfl

theorem valueUsed_places (every : value.EverySpan holds) :
    Outcome (fun error => holds error.span) (fun _ => True) (valueUsed isVoid value) :=
  refuseCall_places (fun _ _ => holds_of_findCall? value every) trivial

theorem valueDiscarded_places (every : value.EverySpan holds) :
    Outcome (fun error => holds error.span) (fun _ => True) (valueDiscarded isVoid value) := by
  have inside := every.ungrouped
  unfold valueDiscarded
  split
  · rename_i span callee arguments ungrouped_eq
    rw [ungrouped_eq] at inside
    exact refuseCall_places (fun _ _ => holds_of_findCallIn? arguments inside.2.2) trivial
  · rename_i span target op assigned ungrouped_eq
    rw [ungrouped_eq] at inside
    exact valueUsed_places inside.2.2.2
  · exact valueUsed_places every

/-! ## Expressions -/

mutual

theorem checkExpr_places {state : State} (value : Expr) (good : value.EverySpan holds)
    (every : state.EverySpan holds) : Checked holds (checkExpr value state) := by
  cases value with
  | literal written => exact every
  | identifier name => exact every.read good
  | group span inner => exact checkExpr_places inner good.2 every
  | call span callee arguments =>
    rw [checkExpr]
    split
    · exact good.2.1
    · exact checkExprs_places arguments good.2.2 every
  | binary span op opSpan left right =>
    rw [checkExpr]
    refine (checkExpr_places left good.2.2.1 every).bind fun middle middleEvery => ?_
    exact checkExpr_places right good.2.2.2 middleEvery
  | unary span op opSpan operand => exact checkExpr_places operand good.2.2 every
  | step span op fixity target => exact every.read good.2
  | assign span target op value =>
    obtain ⟨-, targetGood, -, valueGood⟩ := good
    rw [checkExpr]
    split
    · exact targetGood
    · refine (checkExpr_places value valueGood every).bind fun middle middleEvery => ?_
      split
      · exact (middleEvery.read targetGood).bind fun last lastEvery => lastEvery.assign _
      · exact middleEvery.assign _

theorem checkExprs_places {state : State} (values : List Expr)
    (good : Expr.AllEverySpan holds values) (every : state.EverySpan holds) :
    Checked holds (checkExprs values state) := by
  cases values with
  | nil => exact every
  | cons first others =>
    rw [checkExprs]
    refine (checkExpr_places first good.1 every).bind fun middle middleEvery => ?_
    exact checkExprs_places others good.2 middleEvery

end

theorem checkUsed_places (good : value.EverySpan holds) (every : state.EverySpan holds) :
    Checked holds (checkUsed isVoid value state) :=
  (valueUsed_places good).bind fun _ _ => checkExpr_places value good every

theorem checkDiscarded_places (good : value.EverySpan holds) (every : state.EverySpan holds) :
    Checked holds (checkDiscarded isVoid value state) :=
  (valueDiscarded_places good).bind fun _ _ => checkExpr_places value good every

/-! ## Statements -/

theorem checkDeclarator_places {declarator : Declarator} (good : declarator.EverySpan holds)
    (every : state.EverySpan holds) :
    Checked holds (checkDeclarator isVoid declarator state) := by
  obtain ⟨span, name, initial⟩ := declarator
  obtain ⟨-, nameGood, initialGood⟩ := good
  cases initial with
  | none => exact every.declare nameGood
  | some value =>
    have valueGood := initialGood value rfl
    refine (valueUsed_places valueGood).bind fun _ _ => ?_
    refine (every.declare nameGood).bind fun declared declaredEvery => ?_
    refine (checkExpr_places value valueGood declaredEvery).bind fun last lastEvery => ?_
    exact lastEvery.assign _

theorem checkDeclarators_places {declarators : List Declarator}
    (good : ∀ declarator ∈ declarators, declarator.EverySpan holds)
    (every : state.EverySpan holds) :
    Checked holds (checkDeclarators isVoid declarators state) := by
  induction declarators generalizing state with
  | nil => exact every
  | cons first others ih =>
    rw [List.forall_mem_cons] at good
    rw [checkDeclarators]
    exact (checkDeclarator_places good.1 every).bind fun _ middleEvery => ih good.2 middleEvery

theorem checkForInitializer_places {initializer : Option ForInitializer}
    (good : ∀ first ∈ initializer, first.EverySpan holds) (every : state.EverySpan holds) :
    Checked holds (checkForInitializer isVoid initializer state) := by
  match initializer with
  | none => exact every
  | some (.declaration declarators) => exact checkDeclarators_places (good _ rfl) every
  | some (.expression value) => exact checkDiscarded_places (good _ rfl) every

theorem checkOptional_places {check : Expr → State → Except SemanticError State}
    {value : Option Expr}
    (checked : ∀ present ∈ value, Checked holds (check present state))
    (every : state.EverySpan holds) : Checked holds (checkOptional check value state) := by
  cases value with
  | none => exact every
  | some present => exact checked present rfl

mutual

theorem checkStmt_places {inLoop : Bool} {state : State} (statement : Stmt)
    (good : statement.EverySpan holds) (every : state.EverySpan holds) :
    Checked holds (checkStmt isVoid inLoop statement state) := by
  cases statement with
  | declaration span declarators => exact checkDeclarators_places good.2 every
  | expression span value => exact checkDiscarded_places good.2 every
  | block span statements =>
    rw [checkStmt]
    exact (checkStmts_places statements good.2 every.enter).bind fun _ innerEvery =>
      innerEvery.leave
  | ifThen span condition positive =>
    rw [checkStmt]
    refine (checkUsed_places good.2.1 every).bind fun tested testedEvery => ?_
    exact checkStmt_places positive good.2.2 testedEvery
  | ifElse span condition positive negative =>
    obtain ⟨-, conditionGood, positiveGood, negativeGood⟩ := good
    rw [checkStmt]
    refine (checkUsed_places conditionGood every).bind fun tested testedEvery => ?_
    refine (checkStmt_places positive positiveGood testedEvery).bind fun middle middleEvery => ?_
    exact checkStmt_places negative negativeGood middleEvery
  | whileLoop span condition body =>
    rw [checkStmt]
    refine (checkUsed_places good.2.1 every).bind fun tested testedEvery => ?_
    exact checkStmt_places body good.2.2 testedEvery
  | doWhile span body condition =>
    rw [checkStmt]
    refine (checkStmt_places body good.2.1 every).bind fun middle middleEvery => ?_
    exact checkUsed_places good.2.2 middleEvery
  | forLoop span initializer test after body =>
    obtain ⟨-, initialGood, testGood, afterGood, bodyGood⟩ := good
    rw [checkStmt]
    refine (checkForInitializer_places initialGood every.enter).bind fun started startedEvery => ?_
    refine (checkOptional_places (fun value isTest => checkUsed_places (testGood value isTest)
      startedEvery) startedEvery).bind fun tested testedEvery => ?_
    refine (checkStmt_places body bodyGood testedEvery).bind fun middle middleEvery => ?_
    refine (checkOptional_places (fun value isAfter => checkDiscarded_places
      (afterGood value isAfter) middleEvery) middleEvery).bind fun last lastEvery => ?_
    exact lastEvery.leave
  | breakLoop span | continueLoop span =>
    rw [checkStmt]
    split
    · exact every
    · exact good
  | returnValue span value =>
    exact checkOptional_places (fun result isResult => checkUsed_places (good.2 result isResult)
      every) every
  | empty span => exact every

theorem checkStmts_places {inLoop : Bool} {state : State} (statements : List Stmt)
    (good : Stmt.AllEverySpan holds statements) (every : state.EverySpan holds) :
    Checked holds (checkStmts isVoid inLoop statements state) := by
  cases statements with
  | nil => exact every
  | cons first others =>
    rw [checkStmts]
    refine (checkStmt_places first good.1 every).bind fun middle middleEvery => ?_
    exact checkStmts_places others good.2 middleEvery

end

/-! ## Programs -/

theorem mem_of_firstRepeated? {seen : List String} {names : List Ident}
    (found : firstRepeated? seen names = some name) : name ∈ names := by
  induction names generalizing seen with
  | nil => cases found
  | cons first others ih =>
    rw [firstRepeated?] at found
    split at found
    · cases found
      exact List.mem_cons_self
    · exact List.mem_cons_of_mem first (ih found)

theorem everySpan_initialState {parameters : List Parameter}
    (good : ∀ parameter ∈ parameters, holds parameter.span) :
    (initialState parameters).EverySpan holds := by
  refine ⟨?_, nofun⟩
  refine List.forall_mem_singleton.mpr fun entry member => ?_
  obtain ⟨parameter, found, rfl⟩ := List.mem_map.mp (List.mem_reverse.mp member)
  exact good parameter found

/-- Warnings, or an error, of whose spans something holds. -/
abbrev Warned (holds : Span → Prop) : Except SemanticError (List Warning) → Prop :=
  Outcome (fun error => holds error.span) fun warnings => ∀ warning ∈ warnings, holds warning.span

theorem checkFunction_places {function : FunctionDef} (good : function.EverySpan holds) :
    Warned holds (checkFunction isVoid function) := by
  unfold checkFunction
  split
  · rename_i name found
    obtain ⟨parameter, member, rfl⟩ := List.mem_map.mp (mem_of_firstRepeated? found)
    exact (good.parameters parameter member).2
  · have every := everySpan_initialState fun parameter member =>
      (good.parameters parameter member).1
    refine (checkStmts_places _ good.statements every.enter).bind fun last lastEvery => ?_
    exact lastEvery.leave.warnings

theorem checkFunctions_places {functions : List FunctionDef}
    (good : ∀ function ∈ functions, function.EverySpan holds) :
    Warned holds (checkFunctions isVoid functions) := by
  induction functions with
  | nil => exact nofun
  | cons first others ih =>
    rw [List.forall_mem_cons] at good
    rw [checkFunctions]
    refine (checkFunction_places good.1).bind fun warnings firstEvery => ?_
    refine (ih good.2).bind fun more othersEvery => ?_
    exact List.forall_mem_append.mpr ⟨firstEvery, othersEvery⟩

end SmallC.Semantic

namespace SmallC

/-- What holds of every span of a program holds of every span that its check reports. -/
theorem Program.check_places {holds : Span → Prop} {program : Program}
    (good : program.EverySpan holds) : Semantic.Warned holds program.check := by
  unfold Program.check
  split
  · rename_i name found
    obtain ⟨function, member, rfl⟩ := List.mem_map.mp (Semantic.mem_of_firstRepeated? found)
    exact (good.functions function member).name
  · refine (Semantic.checkFunctions_places good.functions).bind fun warnings every => ?_
    split
    · exact every
    · exact good.endOffset

end SmallC
