import SmallC.Proofs.Lowering.Complete

/-!
# What can be lowered is well scoped

The checks and lowering keep the same names in scope, so the checks find every name that lowering
finds, and refuse no declaration and no jump that lowering accepts.  Where lowering succeeds, the
checks can only fail for what lowering does not look at: the results of `void` functions and calls
of variables.
-/

namespace SmallC

namespace Lowering

open SmallC.Graph Semantic

variable {defined isVoid : String → Bool}

/-! ## Functions -/

/-- Parameters that a graph can declare have different names. -/
theorem Takes.firstRepeated?_eq_none {parameters : List Parameter} {graph next : Graph}
    (takes : Takes parameters graph next) {seen : List String}
    (seen_eq : ∀ name, graph.scopes.declaresHere name = seen.contains name) :
    firstRepeated? seen (parameters.map (·.name)) = none := by
  induction takes generalizing seen with
  | nil _ => rfl
  | @cons first others graph next _ _ free _ _ ih =>
    rw [seen_eq] at free
    rw [List.map_cons, firstRepeated?, if_neg (by rw [free]; exact Bool.false_ne_true)]
    exact ih (declaresHere_withParameter seen_eq first.name.name)

variable {error : SemanticError}

/-- The checks of a function that can be lowered do not fail for scoping. -/
theorem isScoping_checkFunction {function : FunctionDef} {graph : Graph}
    (tree : function.WellFormed) (lowered : lowerFunction defined function = .ok graph)
    (refused : checkFunction isVoid function = .error error) : error.cause.isScoping = false := by
  obtain ⟨taken, inside, outer, declared, insideLowered, -, -⟩ := lowerFunction_eq_ok_iff.mp lowered
  have takes := takes_parameters tree declared
  have accepts := (accords_body isVoid defined tree takes.took).of_eq_ok insideLowered
  rw [checkFunction, takes.firstRepeated?_eq_none fun _ => rfl] at refused
  dsimp only at refused
  cases checked : checkStmts isVoid false function.body.statements
      (initialState function.parameters).enter with
  | error other =>
    rw [checked] at accepts refused
    cases refused
    exact accepts
  | ok after =>
    rw [checked] at refused
    cases refused

theorem isScoping_checkFunctions {functions : List FunctionDef} {graphs : List Graph}
    (tree : ∀ function ∈ functions, function.WellFormed)
    (lowered : lowerFunctions defined functions = .ok graphs)
    (refused : checkFunctions isVoid functions = .error error) :
    error.cause.isScoping = false := by
  induction functions generalizing graphs with
  | nil => cases refused
  | cons first others ih =>
    rw [List.forall_mem_cons] at tree
    simp only [lowerFunctions, bind_eq_ok_iff] at lowered
    obtain ⟨graph, firstLowered, rest, othersLowered, -⟩ := lowered
    rw [checkFunctions] at refused
    cases firstChecked : checkFunction isVoid first with
    | error other =>
      rw [firstChecked] at refused
      cases refused
      exact isScoping_checkFunction tree.1 firstLowered firstChecked
    | ok warnings =>
      rw [firstChecked, ok_bind] at refused
      cases othersChecked : checkFunctions isVoid others with
      | error other =>
        rw [othersChecked] at refused
        cases refused
        exact ih tree.2 othersLowered othersChecked
      | ok more =>
        rw [othersChecked] at refused
        cases refused

end Lowering

/-! ## Programs -/

/-- A program that can be lowered can only be refused for other reasons than scoping. -/
theorem Program.isScoping_check {program : Program} {graphs : List Graph}
    (tree : ∀ function ∈ program.functions, function.WellFormed)
    (lowered : program.lower = .ok graphs) (refused : program.check = .error error) :
    error.cause.isScoping = false := by
  unfold Program.check at refused
  split at refused
  · cases refused
    rfl
  · cases checked : Semantic.checkFunctions program.definesVoid program.functions with
    | error other =>
      rw [checked] at refused
      cases refused
      exact Lowering.isScoping_checkFunctions tree lowered checked
    | ok warnings =>
      rw [checked, ok_bind] at refused
      split at refused
      · cases refused
      · cases refused
        rfl

/-- A program that the checks refuse for scoping, which is about names and about jumps out of loops,
cannot be lowered: that fails with an internal error of the compiler.  A function that is too large
for its frame can make it fail for that instead, if it comes first. -/
theorem lower_refuses_badly_scoped {text : List Char} {program : Program} {error : SemanticError}
    (parsed : parseProgram text = .ok program) (refused : program.check = .error error)
    (scoping : error.cause.isScoping = true) :
    ∃ fault, program.lower = .error fault ∧
      (fault.Internal ∨
        fault = .frameOverflow ∧ ∃ function ∈ program.functions, Lowering.TooLarge function) := by
  have tree := Program.wellFormed_of_parse parsed
  cases lowered : program.lower with
  | error fault => exact ⟨fault, rfl, Lowering.fails_lowerFunctions tree fault lowered⟩
  | ok graphs =>
    rw [Program.isScoping_check tree lowered refused] at scoping
    cases scoping

/-- A variable may hide that of an outer scope, but is declared only once in its own. -/
theorem lower_refuses_badly_scoped_twice :
    ∃ program error fault,
      parseProgram "int main(int a)\x7bint b;while(a)\x7bint b=a;int b;\x7d\x7d".toList =
          .ok program ∧
        program.check = .error error ∧ error.cause = .redeclaration "b" ∧
          program.lower = .error fault ∧ fault.Internal := by
  have evaluated : (parseProgram
      "int main(int a)\x7bint b;while(a)\x7bint b=a;int b;\x7d\x7d".toList).toOption.any
        (fun program =>
          decide ((program.check.map fun _ => ()).mapError (·.cause) =
              .error (.redeclaration "b")) &&
            program.functions.all fun function =>
              decide (function.footprint.symbols < 2 ^ 29 ∧
                function.parameters.length ≤ 2 ^ 28 + 4)) = true := by
    cbv
  obtain ⟨program, parsed, passes⟩ := exists_ok_of_any evaluated
  simp only [Bool.and_eq_true, List.all_eq_true, decide_eq_true_eq] at passes
  obtain ⟨cause, small⟩ := passes
  cases refused : program.check with
  | ok warnings =>
    rw [refused] at cause
    cases cause
  | error error =>
    rw [refused] at cause
    replace cause : error.cause = .redeclaration "b" := Except.error.inj cause
    obtain ⟨fault, lowered, isInternal | ⟨-, function, member, symbols | parameters⟩⟩ :=
      lower_refuses_badly_scoped parsed refused (by rw [cause]; rfl)
    · exact ⟨program, error, fault, parsed, refused, cause, lowered, isInternal⟩
    · exact absurd (small function member).1 (Nat.not_lt.mpr symbols)
    · unfold Frame.maxParameters at parameters
      exact absurd (small function member).2 (Nat.not_le.mpr parameters)

end SmallC
