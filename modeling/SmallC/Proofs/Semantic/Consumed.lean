import SmallC.Parse.Program
import SmallC.Proofs.Result
import SmallC.Proofs.Semantics.Order
import SmallC.Semantic.Check

/-!
# Uses of results that do not exist

A `void` function has no result, so a call of it may stand only where the value of an expression is
dropped: as the whole of an expression statement, or of what a `for` statement does before its loop
or after its body, parentheses aside.  Everywhere else the value of a call is consumed.  The checks
refuse exactly the programs in which such a value is consumed, at a call where that happens.
-/

namespace SmallC

/-! ## Consumed expressions -/

/-- The expressions inside an expression whose own value is dropped. -/
def Expr.consumedWhenDropped (value : Expr) : List Expr :=
  value.ungrouped.parts.tail

/-- The expressions inside an expression that may be missing and whose own value is dropped. -/
def Expr.consumedWhenDroppedOption : Option Expr → List Expr
  | none => []
  | some value => value.consumedWhenDropped

/-- The consumed expressions in what a `for` statement does before its loop. -/
def ForInitializer.consumed : Option ForInitializer → List Expr
  | none => []
  | some (.declaration declarators) => Declarator.parts declarators
  | some (.expression value) => value.consumedWhenDropped

mutual

/-- The expressions in a statement whose values are consumed, by the statement or by an expression
around them. -/
def Stmt.consumed : Stmt → List Expr
  | .declaration _ declarators => Declarator.parts declarators
  | .expression _ value => value.consumedWhenDropped
  | .block _ statements => Stmt.consumedOfAll statements
  | .ifThen _ condition positive => condition.parts ++ positive.consumed
  | .ifElse _ condition positive negative =>
    condition.parts ++ (positive.consumed ++ negative.consumed)
  | .whileLoop _ condition body => condition.parts ++ body.consumed
  | .doWhile _ body condition => body.consumed ++ condition.parts
  | .forLoop _ initializer test after body =>
    ForInitializer.consumed initializer ++ (Expr.partsOfOption test ++
      (body.consumed ++ Expr.consumedWhenDroppedOption after))
  | .breakLoop _ => []
  | .continueLoop _ => []
  | .returnValue _ value => Expr.partsOfOption value
  | .empty _ => []

/-- The expressions in a list of statements whose values are consumed. -/
def Stmt.consumedOfAll : List Stmt → List Expr
  | [] => []
  | first :: others => first.consumed ++ Stmt.consumedOfAll others

end

/-- The expressions in the bodies of the functions of a program whose values are consumed. -/
def Program.consumed (program : Program) : List Expr :=
  program.functions.flatMap fun function => Stmt.consumedOfAll function.body.statements

/-! ## Searches for calls -/

namespace Expr

variable {wanted : String → Bool} {first others : List Expr} {found other : Option (Ident × Span)}

/-- The outcome of a search for a wanted call among some expressions. -/
def Searched (wanted : String → Bool) (among : List Expr) : Option (Ident × Span) → Prop
  | none => ∀ span callee arguments, .call span callee arguments ∈ among →
      wanted callee.name = false
  | some (callee, span) =>
    wanted callee.name = true ∧ ∃ arguments, .call span callee arguments ∈ among

theorem Searched.nil : Searched wanted [] none :=
  fun _ _ _ member => absurd member List.not_mem_nil

/-- The second search is made when the first one finds nothing. -/
theorem Searched.append (before : Searched wanted first found)
    (after : Searched wanted others other) :
    Searched wanted (first ++ others) (found.or other) := by
  rcases found with _ | ⟨callee, span⟩
  · rcases other with _ | ⟨callee, span⟩
    · intro span callee arguments member
      rcases List.mem_append.mp member with earlier | later
      · exact before span callee arguments earlier
      · exact after span callee arguments later
    · rcases after with ⟨isWanted, arguments, member⟩
      exact ⟨isWanted, arguments, List.mem_append_right first member⟩
  · rcases before with ⟨isWanted, arguments, member⟩
    exact ⟨isWanted, arguments, List.mem_append_left others member⟩

/-- Whether an expression is a call. -/
def isCall : Expr → Bool
  | .call _ _ _ => true
  | _ => false

/-- An expression that is no call makes no difference to a search. -/
theorem searched_cons_iff {value : Expr} (noCall : value.isCall = false) :
    Searched wanted (value :: others) found ↔ Searched wanted others found := by
  have member_iff (span : Span) (callee : Ident) (arguments : List Expr) :
      Expr.call span callee arguments ∈ value :: others ↔
        Expr.call span callee arguments ∈ others := by
    rw [List.mem_cons, or_iff_right]
    rintro rfl
    cases noCall
  rcases found with _ | ⟨callee, span⟩
  · simp only [Searched, member_iff]
  · simp only [Searched, member_iff]

theorem Searched.cons {value : Expr} (inside : Searched wanted others found)
    (noCall : value.isCall = false) : Searched wanted (value :: others) found :=
  (searched_cons_iff noCall).mpr inside

mutual

theorem searched_findCall? (wanted : String → Bool) :
    (value : Expr) → Searched wanted value.parts (value.findCall? wanted)
  | .literal _ | .identifier _ => .cons .nil rfl
  | .group _ inner => (searched_findCall? wanted inner).cons rfl
  | .call span callee arguments => by
      have inside := searched_findCallIn? wanted arguments
      rw [findCall?, parts]
      by_cases isWanted : wanted callee.name = true
      · rw [if_pos isWanted]
        exact ⟨isWanted, arguments, List.mem_cons_self⟩
      · rw [if_neg isWanted]
        -- A call that is not wanted itself only adds to what was looked at.
        generalize findCallIn? wanted arguments = result at inside
        rcases result with _ | ⟨found, place⟩
        · intro otherSpan other others member
          rcases List.mem_cons.mp member with here | later
          · cases here
            exact Bool.not_eq_true _ ▸ isWanted
          · exact inside otherSpan other others later
        · rcases inside with ⟨foundWanted, others, member⟩
          exact ⟨foundWanted, others, List.mem_cons_of_mem _ member⟩
  | .binary _ _ _ left right => by
      rw [findCall?, parts]
      exact ((searched_findCall? wanted left).append (searched_findCall? wanted right)).cons rfl
  | .unary _ _ _ operand => (searched_findCall? wanted operand).cons rfl
  | .step _ _ _ _ => .cons .nil rfl
  | .assign _ _ _ value => (searched_findCall? wanted value).cons rfl

theorem searched_findCallIn? (wanted : String → Bool) :
    (values : List Expr) → Searched wanted (partsOfAll values) (findCallIn? wanted values)
  | [] => .nil
  | first :: others =>
    (searched_findCall? wanted first).append (searched_findCallIn? wanted others)

end

theorem ungrouped_ne_group (value : Expr) (span : Span) (inner : Expr) :
    value.ungrouped ≠ .group span inner := by
  fun_induction ungrouped value with
  | case1 _ _ ih => exact ih
  | case2 other noGroup => exact noGroup span inner

end Expr

namespace Semantic

open SmallC.Expr

variable {isVoid : String → Bool} {α β : Type} {first others : List Expr} {state : State}

/-! ## Verdicts -/

/-- How a check ends that looks at some expressions: if it succeeds, none of them is a call of a
`void` function, and if it fails because of such a call, that call is one of them. -/
def Verdict (isVoid : String → Bool) (among : List Expr) : Except SemanticError α → Prop :=
  Outcome
    (fun error => ∀ name, error.cause = .voidResultUsed name →
      isVoid name = true ∧ ∃ callee arguments, callee.name = name ∧
        .call error.span callee arguments ∈ among)
    (fun _ => ∀ span callee arguments, .call span callee arguments ∈ among →
      isVoid callee.name = false)

namespace Verdict

theorem ok (result : α) : Verdict isVoid [] (.ok result) :=
  fun _ _ _ member => absurd member List.not_mem_nil

/-- A check that fails for another reason. -/
theorem error {error : SemanticError} (otherwise : ∀ name, error.cause ≠ .voidResultUsed name) :
    Verdict isVoid first (.error error : Except SemanticError α) :=
  fun name cause_eq => absurd cause_eq (otherwise name)

/-- Two checks in a row look at what each of them looks at. -/
theorem bind {check : Except SemanticError α} {next : α → Except SemanticError β}
    (verdict : Verdict isVoid first check) (rest : ∀ result, Verdict isVoid others (next result)) :
    Verdict isVoid (first ++ others) (check >>= next) := by
  cases check with
  | error error =>
    intro name cause_eq
    rcases verdict name cause_eq with ⟨nameVoid, callee, arguments, same, member⟩
    exact ⟨nameVoid, callee, arguments, same, List.mem_append_left others member⟩
  | ok result =>
    have after := rest result
    rw [ok_bind]
    generalize next result = outcome at after
    cases outcome with
    | error error =>
      intro name cause_eq
      rcases after name cause_eq with ⟨nameVoid, callee, arguments, same, member⟩
      exact ⟨nameVoid, callee, arguments, same, List.mem_append_right first member⟩
    | ok last =>
      intro span callee arguments member
      rcases List.mem_append.mp member with earlier | later
      · exact verdict span callee arguments earlier
      · exact after span callee arguments later

/-- A check after which only the state changes. -/
theorem andReturn {check : Except SemanticError α} (verdict : Verdict isVoid first check)
    (change : α → β) : Verdict isVoid first (check >>= fun result => .ok (change result)) := by
  have both := verdict.bind fun result => ok (change result)
  rwa [List.append_nil] at both

end Verdict

/-! ## Expressions -/

theorem verdict_refuseCall {found : Option (Ident × Span)}
    (searched : Searched isVoid first found) :
    Verdict isVoid first (refuseCall found) := by
  rcases found with _ | ⟨callee, span⟩
  · exact searched
  · rintro name ⟨⟩
    rcases searched with ⟨nameVoid, arguments, member⟩
    exact ⟨nameVoid, callee, arguments, rfl, member⟩

theorem verdict_valueUsed (isVoid : String → Bool) (value : Expr) :
    Verdict isVoid value.parts (valueUsed isVoid value) :=
  verdict_refuseCall (searched_findCall? isVoid value)

theorem verdict_valueDiscarded (isVoid : String → Bool) (value : Expr) :
    Verdict isVoid value.consumedWhenDropped (valueDiscarded isVoid value) := by
  have searched := searched_findCall? isVoid value.ungrouped
  rw [findCall?_ungrouped] at searched
  unfold valueDiscarded consumedWhenDropped
  cases value_eq : value.ungrouped with
  | call span callee arguments => exact verdict_refuseCall (searched_findCallIn? isVoid arguments)
  | assign span target op assigned => exact verdict_valueUsed isVoid assigned
  | group span inner => exact absurd value_eq (ungrouped_ne_group value span inner)
  | literal | identifier | binary | unary | step =>
    -- The whole expression is no call, so it may be left out of the search.
    rw [value_eq, parts, searched_cons_iff rfl] at searched
    exact verdict_refuseCall searched

theorem verdict_read (name : Ident) (state : State) : Verdict isVoid [] (state.read name) := by
  unfold State.read
  split
  · exact .error nofun
  · exact .ok _

mutual

/-- The check of the names in an expression does not look at results. -/
theorem verdict_checkExpr (isVoid : String → Bool) (value : Expr) (state : State) :
    Verdict isVoid [] (checkExpr value state) := by
  cases value with
  | literal written => exact .ok state
  | identifier name => exact verdict_read name state
  | group span inner => exact verdict_checkExpr isVoid inner state
  | call span callee arguments =>
    rw [checkExpr]
    split
    · exact .error nofun
    · exact verdict_checkExprs isVoid arguments state
  | binary span op opSpan left right =>
    rw [checkExpr]
    exact (verdict_checkExpr isVoid left state).bind fun middle =>
      verdict_checkExpr isVoid right middle
  | unary span op opSpan operand => exact verdict_checkExpr isVoid operand state
  | step span op fixity target => exact verdict_read target state
  | assign span target op value =>
    rw [checkExpr]
    split
    · exact .error nofun
    · apply (verdict_checkExpr isVoid value state).bind
      intro middle
      split
      · exact (verdict_read target middle).andReturn _
      · exact .ok _

theorem verdict_checkExprs (isVoid : String → Bool) (values : List Expr) (state : State) :
    Verdict isVoid [] (checkExprs values state) := by
  cases values with
  | nil => exact .ok state
  | cons first others =>
    rw [checkExprs]
    exact (verdict_checkExpr isVoid first state).bind fun middle =>
      verdict_checkExprs isVoid others middle

end

theorem verdict_checkUsed (value : Expr) (state : State) :
    Verdict isVoid value.parts (checkUsed isVoid value state) := by
  have both := (verdict_valueUsed isVoid value).bind fun _ => verdict_checkExpr isVoid value state
  rwa [List.append_nil] at both

theorem verdict_checkDiscarded (value : Expr) (state : State) :
    Verdict isVoid value.consumedWhenDropped (checkDiscarded isVoid value state) := by
  have both := (verdict_valueDiscarded isVoid value).bind fun _ =>
    verdict_checkExpr isVoid value state
  rwa [List.append_nil] at both

/-! ## Statements -/

theorem verdict_declare (name : Ident) (state : State) :
    Verdict isVoid [] (state.declare name) := by
  unfold State.declare
  split
  · exact .error nofun
  · split
    · exact .error nofun
    · exact .ok _

theorem verdict_checkDeclarator (declarator : Declarator) (state : State) :
    Verdict isVoid (partsOfOption declarator.initializer)
      (checkDeclarator isVoid declarator state) := by
  rcases declarator with ⟨span, name, _ | value⟩
  · exact verdict_declare name state
  · have checked (declared : State) :
        Verdict isVoid [] (checkExpr value declared >>= fun last => .ok (last.assign name.name)) :=
      (verdict_checkExpr isVoid value declared).andReturn _
    have both := (verdict_valueUsed isVoid value).bind fun _ =>
      (verdict_declare name state).bind checked
    rwa [List.append_nil, List.append_nil] at both

theorem verdict_checkDeclarators (declarators : List Declarator) (state : State) :
    Verdict isVoid (Declarator.parts declarators) (checkDeclarators isVoid declarators state) := by
  induction declarators generalizing state with
  | nil => exact .ok state
  | cons first others ih =>
    rw [checkDeclarators]
    exact (verdict_checkDeclarator first state).bind ih

theorem verdict_checkForInitializer (initializer : Option ForInitializer) (state : State) :
    Verdict isVoid (ForInitializer.consumed initializer)
      (checkForInitializer isVoid initializer state) := by
  rcases initializer with _ | declarators | value
  · exact .ok state
  · exact verdict_checkDeclarators declarators state
  · exact verdict_checkDiscarded value state

theorem verdict_checkOptional_used (value : Option Expr) (state : State) :
    Verdict isVoid (partsOfOption value) (checkOptional (checkUsed isVoid) value state) := by
  cases value with
  | none => exact .ok state
  | some value => exact verdict_checkUsed value state

theorem verdict_checkOptional_discarded (value : Option Expr) (state : State) :
    Verdict isVoid (consumedWhenDroppedOption value)
      (checkOptional (checkDiscarded isVoid) value state) := by
  cases value with
  | none => exact .ok state
  | some value => exact verdict_checkDiscarded value state

mutual

theorem verdict_checkStmt (statement : Stmt) (inLoop : Bool) (state : State) :
    Verdict isVoid statement.consumed (checkStmt isVoid inLoop statement state) := by
  cases statement with
  | declaration span declarators => exact verdict_checkDeclarators declarators state
  | expression span value => exact verdict_checkDiscarded value state
  | block span statements =>
    rw [checkStmt]
    exact (verdict_checkStmts statements inLoop state.enter).andReturn State.leave
  | ifThen span condition positive =>
    rw [checkStmt]
    exact (verdict_checkUsed condition state).bind (verdict_checkStmt positive inLoop)
  | ifElse span condition positive negative =>
    rw [checkStmt]
    apply (verdict_checkUsed condition state).bind
    intro tested
    exact (verdict_checkStmt positive inLoop tested).bind (verdict_checkStmt negative inLoop)
  | whileLoop span condition body =>
    rw [checkStmt]
    exact (verdict_checkUsed condition state).bind (verdict_checkStmt body true)
  | doWhile span body condition =>
    rw [checkStmt]
    exact (verdict_checkStmt body true state).bind (verdict_checkUsed condition)
  | forLoop span initializer test after body =>
    rw [checkStmt]
    apply (verdict_checkForInitializer initializer state.enter).bind
    intro started
    apply (verdict_checkOptional_used test started).bind
    intro tested
    apply (verdict_checkStmt body true tested).bind
    intro done
    exact (verdict_checkOptional_discarded after done).andReturn State.leave
  | breakLoop span | continueLoop span =>
    rw [checkStmt]
    split
    · exact .ok state
    · exact .error nofun
  | returnValue span value => exact verdict_checkOptional_used value state
  | empty span => exact .ok state

theorem verdict_checkStmts (statements : List Stmt) (inLoop : Bool) (state : State) :
    Verdict isVoid (Stmt.consumedOfAll statements) (checkStmts isVoid inLoop statements state) := by
  cases statements with
  | nil => exact .ok state
  | cons first others =>
    rw [checkStmts]
    exact (verdict_checkStmt first inLoop state).bind (verdict_checkStmts others inLoop)

end

/-! ## Functions -/

theorem verdict_checkFunction (function : FunctionDef) :
    Verdict isVoid (Stmt.consumedOfAll function.body.statements)
      (checkFunction isVoid function) := by
  unfold checkFunction
  split
  · exact .error nofun
  · exact (verdict_checkStmts function.body.statements false _).andReturn _

theorem verdict_checkFunctions (functions : List FunctionDef) :
    Verdict isVoid
      (functions.flatMap fun function => Stmt.consumedOfAll function.body.statements)
      (checkFunctions isVoid functions) := by
  induction functions with
  | nil => exact .ok []
  | cons first others ih =>
    rw [checkFunctions, List.flatMap_cons]
    exact (verdict_checkFunction first).bind fun warnings => ih.andReturn (warnings ++ ·)

end Semantic

/-! ## Programs -/

theorem Program.verdict_check (program : Program) :
    Semantic.Verdict program.definesVoid program.consumed program.check := by
  unfold Program.check
  split
  · exact .error nofun
  · have both := (Semantic.verdict_checkFunctions program.functions).bind fun warnings => show
      Semantic.Verdict program.definesVoid []
        (if program.defines "main" then pure warnings
          else throw ⟨.missingMain, .point program.endOffset⟩) by
        split
        · exact .ok warnings
        · exact .error nofun
    rwa [List.append_nil] at both

theorem Program.definesVoid_eq_true_iff {program : Program} {name : String} :
    program.definesVoid name = true ↔
      ∃ function ∈ program.functions, function.name.name = name ∧ function.returnType = .void := by
  simp [Program.definesVoid]

/-- A program that passes the checks consumes no result of a `void` function, wherever that function
is defined.  A program that is refused for such a use defines that function without a result, and
the place that is reported is that of a call of it whose result is consumed. -/
theorem void_results_checked_exactly (program : Program) :
    (∀ warnings, program.check = .ok warnings →
        ∀ span callee arguments, Expr.call span callee arguments ∈ program.consumed →
          ∀ function ∈ program.functions, function.name.name = callee.name →
            function.returnType ≠ .void) ∧
      ∀ name span, program.check = .error ⟨.voidResultUsed name, span⟩ →
        (∃ function ∈ program.functions, function.name.name = name ∧
            function.returnType = .void) ∧
          ∃ callee arguments, callee.name = name ∧
            Expr.call span callee arguments ∈ program.consumed := by
  have verdict := program.verdict_check
  constructor
  · intro warnings checked span callee arguments member function defined name_eq isVoid
    rw [checked] at verdict
    have notVoid := verdict span callee arguments member
    rw [Program.definesVoid_eq_true_iff.mpr ⟨function, defined, name_eq, isVoid⟩] at notVoid
    cases notVoid
  · intro name span refused
    rw [refused] at verdict
    rcases verdict name rfl with ⟨nameVoid, consumed⟩
    exact ⟨Program.definesVoid_eq_true_iff.mp nameVoid, consumed⟩

/-- Calls of a `void` function that is defined later: dropped at three places of a loop, in
parentheses or not, and consumed in an argument of a call that is dropped itself. -/
theorem void_results_checked_exactly_loop :
    (∃ program warnings,
        parseProgram "int main()\x7bfor(f();g();(f()))f();\x7dvoid f()\x7b\x7d".toList =
            .ok program ∧
          program.check = .ok warnings ∧
            ∀ span callee arguments, Expr.call span callee arguments ∈ program.consumed →
              ∀ function ∈ program.functions, function.name.name = callee.name →
                function.returnType ≠ .void) ∧
      ∃ program callee arguments,
        parseProgram "int main()\x7bf();g(1,(f()));\x7dvoid f()\x7b\x7d".toList = .ok program ∧
          program.check = .error ⟨.voidResultUsed "f", ⟨20, 23⟩⟩ ∧
            Expr.call ⟨20, 23⟩ callee arguments ∈ program.consumed := by
  have accepted : (parseProgram
      "int main()\x7bfor(f();g();(f()))f();\x7dvoid f()\x7b\x7d".toList).toOption.any
        (fun program => program.check.toOption.isSome) = true := by
    cbv
  have refused : (parseProgram
      "int main()\x7bf();g(1,(f()));\x7dvoid f()\x7b\x7d".toList).toOption.any
      (fun program => decide (program.check.map (fun _ => ()) =
        .error ⟨.voidResultUsed "f", ⟨20, 23⟩⟩)) = true := by
    cbv
  constructor
  · rcases exists_ok_of_any accepted with ⟨program, parsed, passes⟩
    rcases exists_ok_of_isSome passes with ⟨warnings, checked⟩
    exact ⟨program, warnings, parsed, checked,
      (void_results_checked_exactly program).1 warnings checked⟩
  · rcases exists_ok_of_any refused with ⟨program, parsed, fails⟩
    cases checked : program.check with
    | ok warnings => simp [checked, Except.map] at fails
    | error error =>
      simp only [checked, Except.map, decide_eq_true_eq, Except.error.injEq] at fails
      subst fails
      rcases ((void_results_checked_exactly program).2 _ _ checked).2 with
        ⟨callee, arguments, -, member⟩
      exact ⟨program, callee, arguments, parsed, checked, member⟩

end SmallC
