import SmallC.Proofs.Tree.Grammar
import SmallC.Proofs.Tree.Walk

/-!
# Outlines of trees

The outline of a tree is what is left of it without spans, names of variables and types of results.
Trees with the same outline have the same operators, literals and callees in the same places, so the
walks through them take the same turns.
-/

namespace SmallC

/-! ## Outlines -/

/-- What stands in an outline for the name of a variable. -/
def Ident.blank : Ident :=
  ⟨"", .point 0⟩

mutual

/-- The outline of an expression. -/
def Expr.outline : Expr → Expr
  | .literal written => .literal written.erased
  | .identifier _ => .identifier .blank
  | .group _ inner => .group (.point 0) inner.outline
  | .call _ callee arguments => .call (.point 0) callee.erased (Expr.outlines arguments)
  | .binary _ op _ left right => .binary (.point 0) op (.point 0) left.outline right.outline
  | .unary _ op _ operand => .unary (.point 0) op (.point 0) operand.outline
  | .step _ op fixity _ => .step (.point 0) op fixity .blank
  | .assign _ _ op value =>
    .assign (.point 0) .blank (op.map fun entry => (entry.1, .point 0)) value.outline

/-- The outlines of expressions. -/
def Expr.outlines : List Expr → List Expr
  | [] => []
  | first :: others => first.outline :: Expr.outlines others

end

/-- The outline of a variable of a declaration. -/
def Declarator.outline (declarator : Declarator) : Declarator :=
  ⟨.point 0, .blank, declarator.initializer.map Expr.outline⟩

/-- The outline of what a `for` statement does before its loop. -/
def ForInitializer.outline : ForInitializer → ForInitializer
  | .declaration declarators => .declaration (declarators.map Declarator.outline)
  | .expression value => .expression value.outline

mutual

/-- The outline of a statement. -/
def Stmt.outline : Stmt → Stmt
  | .declaration _ declarators => .declaration (.point 0) (declarators.map Declarator.outline)
  | .expression _ value => .expression (.point 0) value.outline
  | .block _ statements => .block (.point 0) (Stmt.outlines statements)
  | .ifThen _ condition positive => .ifThen (.point 0) condition.outline positive.outline
  | .ifElse _ condition positive negative =>
    .ifElse (.point 0) condition.outline positive.outline negative.outline
  | .whileLoop _ condition body => .whileLoop (.point 0) condition.outline body.outline
  | .doWhile _ body condition => .doWhile (.point 0) body.outline condition.outline
  | .forLoop _ initializer test after body =>
    .forLoop (.point 0) (initializer.map ForInitializer.outline) (test.map Expr.outline)
      (after.map Expr.outline) body.outline
  | .breakLoop _ => .breakLoop (.point 0)
  | .continueLoop _ => .continueLoop (.point 0)
  | .returnValue _ value => .returnValue (.point 0) (value.map Expr.outline)
  | .empty _ => .empty (.point 0)

/-- The outlines of statements. -/
def Stmt.outlines : List Stmt → List Stmt
  | [] => []
  | first :: others => first.outline :: Stmt.outlines others

end

/-- The outline of a function: its name, the number of its parameters and the outline of its
body. -/
def FunctionDef.outline (function : FunctionDef) : FunctionDef :=
  ⟨.point 0, .int, function.name.erased, function.parameters.map fun _ => ⟨.point 0, .blank⟩,
    ⟨.point 0, Stmt.outlines function.body.statements⟩⟩

/-- The outline of a program. -/
def Program.outline (program : Program) : Program :=
  ⟨program.functions.map FunctionDef.outline, 0⟩

/-! ## Names on walks -/

/-- The name that an event is about is a word. -/
def ScopeEvent.WellFormed : ScopeEvent → Prop
  | .enter => True
  | .leave => True
  | .parameter name => name.WellFormed
  | .declare name => name.WellFormed
  | .read name => name.WellFormed
  | .write name => name.WellFormed

/-- All names on a walk are words. -/
def Walk.WellFormed (walk : Walk) : Prop :=
  ∀ event ∈ walk, event.WellFormed

namespace Walk.WellFormed

variable {first second : Walk} {event : ScopeEvent}

theorem nil : Walk.WellFormed [] :=
  nofun

theorem cons (here : event.WellFormed) (rest : Walk.WellFormed first) :
    Walk.WellFormed (event :: first) :=
  List.forall_mem_cons.mpr ⟨here, rest⟩

theorem append (formed : Walk.WellFormed first) (others : Walk.WellFormed second) :
    Walk.WellFormed (first ++ second) :=
  List.forall_mem_append.mpr ⟨formed, others⟩

theorem single (here : event.WellFormed) : Walk.WellFormed [event] :=
  cons here nil

end Walk.WellFormed

mutual

theorem Expr.wellFormed_events (value : Expr) (formed : value.WellFormed) :
    Walk.WellFormed value.events := by
  cases value with
  | literal _ => exact .nil
  | identifier name => exact .single formed
  | group _ inner => exact Expr.wellFormed_events inner formed
  | call _ _ arguments => exact Expr.wellFormed_eventsOfAll arguments formed.2
  | binary _ _ _ left right =>
    exact (Expr.wellFormed_events left formed.1).append (Expr.wellFormed_events right formed.2)
  | unary _ _ _ operand => exact Expr.wellFormed_events operand formed
  | step _ _ _ target => exact .single formed
  | assign _ target op assigned =>
    refine (Expr.wellFormed_events assigned formed.2).append (.single ?_)
    cases op <;> exact formed.1

theorem Expr.wellFormed_eventsOfAll (values : List Expr) (formed : Expr.AllWellFormed values) :
    Walk.WellFormed (Expr.eventsOfAll values) := by
  cases values with
  | nil => exact .nil
  | cons first others =>
    exact (Expr.wellFormed_events first formed.1).append
      (Expr.wellFormed_eventsOfAll others formed.2)

end

theorem Expr.wellFormed_eventsOfOption (value : Option Expr)
    (formed : Expr.OptionWellFormed value) : Walk.WellFormed (Expr.eventsOfOption value) := by
  cases value with
  | none => exact .nil
  | some value => exact Expr.wellFormed_events value formed

theorem Declarator.wellFormed_events (declarator : Declarator) (formed : declarator.WellFormed) :
    Walk.WellFormed declarator.events := by
  rcases declarator with ⟨span, name, _ | value⟩
  · exact .single formed.1
  · exact .cons formed.1 ((Expr.wellFormed_events value formed.2).append (.single formed.1))

theorem Declarator.wellFormed_eventsOfAll (declarators : List Declarator)
    (formed : ∀ declarator ∈ declarators, declarator.WellFormed) :
    Walk.WellFormed (Declarator.eventsOfAll declarators) := by
  induction declarators with
  | nil => exact .nil
  | cons first others ih =>
    rw [List.forall_mem_cons] at formed
    exact (first.wellFormed_events formed.1).append (ih formed.2)

theorem ForInitializer.wellFormed_events (initializer : Option ForInitializer)
    (formed : ForInitializer.WellFormed initializer) :
    Walk.WellFormed (ForInitializer.events initializer) := by
  match initializer with
  | none => exact .nil
  | some (.declaration declarators) => exact Declarator.wellFormed_eventsOfAll declarators formed
  | some (.expression value) => exact Expr.wellFormed_events value formed

mutual

theorem Stmt.wellFormed_events (statement : Stmt) (formed : statement.WellFormed) :
    Walk.WellFormed statement.events := by
  cases statement with
  | declaration _ declarators => exact Declarator.wellFormed_eventsOfAll declarators formed
  | expression _ value => exact Expr.wellFormed_events value formed
  | block _ statements =>
    exact .cons trivial ((Stmt.wellFormed_eventsOfAll statements formed).append (.single trivial))
  | ifThen _ condition positive =>
    exact (Expr.wellFormed_events condition formed.1).append
      (Stmt.wellFormed_events positive formed.2.1)
  | ifElse _ condition positive negative =>
    rcases formed with ⟨conditionFormed, ⟨positiveFormed, -⟩, negativeFormed, -⟩
    exact (Expr.wellFormed_events condition conditionFormed).append
      ((Stmt.wellFormed_events positive positiveFormed).append
        (Stmt.wellFormed_events negative negativeFormed))
  | whileLoop _ condition body =>
    exact (Expr.wellFormed_events condition formed.1).append
      (Stmt.wellFormed_events body formed.2.1)
  | doWhile _ body condition =>
    exact (Stmt.wellFormed_events body formed.1.1).append
      (Expr.wellFormed_events condition formed.2)
  | forLoop _ initializer test after body =>
    rcases formed with ⟨initializerFormed, testFormed, afterFormed, bodyFormed, -⟩
    refine .cons trivial ((ForInitializer.wellFormed_events _ initializerFormed).append ?_)
    refine (Expr.wellFormed_eventsOfOption test testFormed).append ?_
    refine (Stmt.wellFormed_events body bodyFormed).append ?_
    exact (Expr.wellFormed_eventsOfOption after afterFormed).append (.single trivial)
  | breakLoop _ | continueLoop _ | empty _ => exact .nil
  | returnValue _ value => exact Expr.wellFormed_eventsOfOption value formed

theorem Stmt.wellFormed_eventsOfAll (statements : List Stmt)
    (formed : Stmt.AllWellFormed statements) : Walk.WellFormed (Stmt.eventsOfAll statements) := by
  cases statements with
  | nil => exact .nil
  | cons first others =>
    exact (Stmt.wellFormed_events first formed.1).append
      (Stmt.wellFormed_eventsOfAll others formed.2)

end

/-- The names on the walk through a well-formed function are words. -/
theorem FunctionDef.wellFormed_walk {function : FunctionDef} (formed : function.WellFormed) :
    Walk.WellFormed function.walk := by
  have body := Stmt.wellFormed_eventsOfAll _ formed.body
  refine Walk.WellFormed.append ?_ (.cons trivial (body.append (.single trivial)))
  exact List.forall_mem_map.mpr formed.parameters

end SmallC
