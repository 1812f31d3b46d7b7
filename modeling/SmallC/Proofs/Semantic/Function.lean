import SmallC.Proofs.Result
import SmallC.Semantic.Check

/-!
# Checks that succeed

A program passes the checks exactly when its functions have different names, one of them is `main`,
and each of them passes on its own.  Its warnings are those of its functions, in their order.
-/

namespace SmallC.Semantic

variable {isVoid : String → Bool} {function : FunctionDef} {functions : List FunctionDef}
  {warnings : List Warning}

/-- An assignment passes the checks when its target is in scope and its parts pass them. -/
theorem checkExpr_assign_eq_ok_iff {state after : State} {span : Span} {target : Ident}
    {op : Option (ArithmeticOp × Span)} {value : Expr} :
    checkExpr (.assign span target op value) state = .ok after ↔
      (state.scopes.lookup? target.name).isSome = true ∧
        ∃ middle last, checkExpr value state = .ok middle ∧
          (if op.isSome then middle.read target else .ok middle) = .ok last ∧
            after = last.assign target.name := by
  rw [checkExpr]
  cases found : state.scopes.lookup? target.name with
  | none => simp [bind, Except.bind]
  | some entry =>
    simp only [Option.isNone_some, Bool.false_eq_true, if_false, Option.isSome_some, true_and,
      pure_eq_ok, ok_bind, bind_eq_ok_iff, exists_and_left]
    refine exists_congr fun middle => and_congr_right fun _ => ?_
    cases op with
    | none => simp [eq_comm]
    | some written =>
      simp only [Option.isSome_some, if_true, bind_eq_ok_iff, Except.ok.injEq]
      exact exists_congr fun last => and_congr_right fun _ => eq_comm

/-- No name is found to be repeated exactly when all names are different from each other and from
those seen before. -/
theorem firstRepeated?_eq_none_iff {seen : List String} {names : List Ident} :
    firstRepeated? seen names = none ↔
      (names.map (·.name)).Nodup ∧ ∀ name ∈ names, name.name ∉ seen := by
  induction names generalizing seen with
  | nil => simp [firstRepeated?]
  | cons first others ih =>
    rw [firstRepeated?]
    by_cases known : first.name ∈ seen
    · simp [known]
    · simp only [List.contains_eq_mem, known, decide_false, Bool.false_eq_true, if_false, ih,
        List.map_cons, List.nodup_cons, List.mem_cons, not_or, forall_eq_or_imp,
        not_false_eq_true, true_and]
      constructor
      · rintro ⟨nodup, apart⟩
        refine ⟨⟨?_, nodup⟩, fun name member => (apart name member).2⟩
        intro repeated
        rcases List.mem_map.mp repeated with ⟨other, member, same⟩
        exact (apart other member).1 same
      · rintro ⟨⟨fresh, nodup⟩, apart⟩
        refine ⟨nodup, fun name member => ⟨?_, apart name member⟩⟩
        intro same
        exact fresh (List.mem_map.mpr ⟨name, member, same⟩)

/-- A function passes the checks when its parameters have different names and its body passes. -/
theorem checkFunction_eq_ok_iff :
    checkFunction isVoid function = .ok warnings ↔
      (function.parameters.map (·.name.name)).Nodup ∧
        ∃ last, checkStmts isVoid false function.body.statements
            (initialState function.parameters).enter = .ok last ∧
          warnings = last.leave.warnings := by
  have different_iff : firstRepeated? [] (function.parameters.map (·.name)) = none ↔
      (function.parameters.map (·.name.name)).Nodup := by
    rw [firstRepeated?_eq_none_iff, List.map_map]
    simp [Function.comp_def]
  rw [← different_iff]
  unfold checkFunction
  cases firstRepeated? [] (function.parameters.map (·.name)) with
  | some name => simp
  | none =>
    simp only [true_and, bind_eq_ok_iff, pure_eq_ok, Except.ok.injEq]
    exact exists_congr fun last => and_congr_right fun _ => eq_comm

/-- Functions pass the checks when each of them does. -/
theorem checkFunctions_eq_ok_iff :
    checkFunctions isVoid functions = .ok warnings ↔
      ∃ reports, List.Forall₂ (fun function report => checkFunction isVoid function = .ok report)
          functions reports ∧ warnings = reports.flatten := by
  induction functions generalizing warnings with
  | nil => simp [checkFunctions, eq_comm]
  | cons first others ih =>
    simp only [checkFunctions, bind_eq_ok_iff, pure_eq_ok, Except.ok.injEq]
    constructor
    · rintro ⟨report, firstChecked, more, othersChecked, rfl⟩
      rcases ih.mp othersChecked with ⟨reports, each, rfl⟩
      exact ⟨report :: reports, .cons firstChecked each, rfl⟩
    · rintro ⟨reports, each, rfl⟩
      cases each with
      | @cons _ report _ reports firstChecked each =>
        exact ⟨report, firstChecked, reports.flatten, ih.mpr ⟨reports, each, rfl⟩, rfl⟩

end SmallC.Semantic

namespace SmallC

open Semantic

/-- When a program passes the checks, and with which warnings. -/
theorem Program.check_eq_ok_iff {program : Program} {warnings : List Warning} :
    program.check = .ok warnings ↔
      (program.functions.map (·.name.name)).Nodup ∧ program.defines "main" = true ∧
        checkFunctions program.definesVoid program.functions = .ok warnings := by
  have different_iff : firstRepeated? [] (program.functions.map (·.name)) = none ↔
      (program.functions.map (·.name.name)).Nodup := by
    rw [firstRepeated?_eq_none_iff, List.map_map]
    simp [Function.comp_def]
  rw [← different_iff]
  unfold Program.check
  cases firstRepeated? [] (program.functions.map (·.name)) with
  | some name => simp
  | none =>
    by_cases hasMain : program.defines "main" = true
    · simp [hasMain]
    · simp [hasMain]

end SmallC
