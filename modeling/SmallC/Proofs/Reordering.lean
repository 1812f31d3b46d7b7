import SmallC.Parse.Program
import SmallC.Proofs.Lowering.Cases
import SmallC.Proofs.Semantic.Function

/-!
# The order of functions

Functions may be used before their definition: what is asked about a program while one of its
functions is checked or lowered is only whether it defines a function of some name, and with which
type.  So the order of the functions shows in nothing but the order of their warnings and graphs.
-/

namespace SmallC

/-- A step that succeeded on every entry of a list gave each entry a result of its own, which is the
same wherever the entry stands. -/
theorem exists_resultOf {ε α β : Type} [Nonempty β] {step : α → Except ε β} {entries : List α}
    {results : List β}
    (each : List.Forall₂ (fun entry result => step entry = .ok result) entries results) :
    ∃ resultOf : α → β, (∀ entry ∈ entries, step entry = .ok (resultOf entry)) ∧
      results = entries.map resultOf := by
  classical
  have fallback : β := Classical.ofNonempty
  refine ⟨fun entry => (step entry).toOption.getD fallback, ?_⟩
  induction each with
  | nil => simp
  | @cons entry result entries results done _ ih =>
    rcases ih with ⟨others, rfl⟩
    have result_eq : (step entry).toOption.getD fallback = result := by rw [done]; rfl
    simp only [List.forall_mem_cons, List.map_cons, result_eq]
    exact ⟨⟨done, others⟩, trivial⟩

/-- Results that belong to the entries of a list follow the order of the entries. -/
theorem forall₂_resultOf {ε α β : Type} {step : α → Except ε β} {entries : List α}
    {resultOf : α → β} (each : ∀ entry ∈ entries, step entry = .ok (resultOf entry)) :
    List.Forall₂ (fun entry result => step entry = .ok result) entries (entries.map resultOf) := by
  rw [List.forall₂_map_right_iff]
  exact List.forall₂_same.mpr each

/-! ## What is asked about a program -/

variable {program reordered : Program}

theorem Program.defines_of_perm (permuted : program.functions.Perm reordered.functions) :
    reordered.defines = program.defines := by
  funext name
  exact permuted.symm.any_eq

theorem Program.definesVoid_of_perm (permuted : program.functions.Perm reordered.functions) :
    reordered.definesVoid = program.definesVoid := by
  funext name
  exact permuted.symm.any_eq

/-! ## Checks -/

/-- Every function of a program that passes the checks has warnings of its own, with which it passes
them in every order. -/
theorem Program.check_of_perm {warnings : List Warning}
    (permuted : program.functions.Perm reordered.functions)
    (checked : program.check = .ok warnings) :
    ∃ warningsOf : FunctionDef → List Warning,
      (∀ function ∈ program.functions,
          Semantic.checkFunction program.definesVoid function = .ok (warningsOf function) ∧
            Semantic.checkFunction reordered.definesVoid function = .ok (warningsOf function)) ∧
        warnings = program.functions.flatMap warningsOf ∧
          reordered.check = .ok (reordered.functions.flatMap warningsOf) := by
  have sameVoid := Program.definesVoid_of_perm permuted
  rw [Program.check_eq_ok_iff, Semantic.checkFunctions_eq_ok_iff] at checked
  rcases checked with ⟨different, hasMain, reports, each, rfl⟩
  rcases exists_resultOf each with ⟨warningsOf, own, rfl⟩
  refine ⟨warningsOf, ?_, List.flatMap_def.symm, ?_⟩
  · intro function member
    rw [sameVoid]
    exact ⟨own function member, own function member⟩
  · rw [Program.check_eq_ok_iff, Program.defines_of_perm permuted, sameVoid,
      Semantic.checkFunctions_eq_ok_iff]
    have ownToo : ∀ function ∈ reordered.functions,
        Semantic.checkFunction program.definesVoid function = .ok (warningsOf function) :=
      fun function member => own function (permuted.mem_iff.mpr member)
    exact ⟨(permuted.map _).nodup_iff.mp different, hasMain, reordered.functions.map warningsOf,
      forall₂_resultOf ownToo, List.flatMap_def⟩

/-! ## Lowering -/

instance : Nonempty Graph :=
  ⟨.new ""⟩

/-- Every function of a program that can be lowered has a graph of its own, which it gets in every
order. -/
theorem Program.lower_of_perm {graphs : List Graph}
    (permuted : program.functions.Perm reordered.functions)
    (lowered : program.lower = .ok graphs) :
    ∃ graphOf : FunctionDef → Graph,
      (∀ function ∈ program.functions,
          Lowering.lowerFunction program.defines function = .ok (graphOf function) ∧
            Lowering.lowerFunction reordered.defines function = .ok (graphOf function)) ∧
        graphs = program.functions.map graphOf ∧
          reordered.lower = .ok (reordered.functions.map graphOf) := by
  have sameDefined := Program.defines_of_perm permuted
  rw [Program.lower, Lowering.lowerFunctions_eq_ok_iff] at lowered
  rcases exists_resultOf lowered with ⟨graphOf, own, rfl⟩
  refine ⟨graphOf, ?_, rfl, ?_⟩
  · intro function member
    rw [sameDefined]
    exact ⟨own function member, own function member⟩
  · rw [Program.lower, Lowering.lowerFunctions_eq_ok_iff, sameDefined]
    exact forall₂_resultOf fun function member => own function (permuted.mem_iff.mpr member)

/-! ## Main statement -/

/-- The order of the functions of a program decides neither whether it passes the checks nor whether
it can be lowered.  Each function has warnings and a graph of its own, and a program gets them in
the order of its functions. -/
theorem functions_reordered (permuted : program.functions.Perm reordered.functions) :
    ((∃ warnings, program.check = .ok warnings) ↔ ∃ warnings, reordered.check = .ok warnings) ∧
      (∀ warnings, program.check = .ok warnings →
        ∃ warningsOf : FunctionDef → List Warning,
          (∀ function ∈ program.functions,
              Semantic.checkFunction program.definesVoid function = .ok (warningsOf function) ∧
                Semantic.checkFunction reordered.definesVoid function = .ok (warningsOf function)) ∧
            warnings = program.functions.flatMap warningsOf ∧
              reordered.check = .ok (reordered.functions.flatMap warningsOf)) ∧
        ((∃ graphs, program.lower = .ok graphs) ↔ ∃ graphs, reordered.lower = .ok graphs) ∧
          ∀ graphs, program.lower = .ok graphs →
            ∃ graphOf : FunctionDef → Graph,
              (∀ function ∈ program.functions,
                  Lowering.lowerFunction program.defines function = .ok (graphOf function) ∧
                    Lowering.lowerFunction reordered.defines function = .ok (graphOf function)) ∧
                graphs = program.functions.map graphOf ∧
                  reordered.lower = .ok (reordered.functions.map graphOf) := by
  have checks {first second : Program} (reorders : first.functions.Perm second.functions) :
      (∃ warnings, first.check = .ok warnings) → ∃ warnings, second.check = .ok warnings := by
    rintro ⟨warnings, checked⟩
    rcases Program.check_of_perm reorders checked with ⟨warningsOf, -, -, secondChecked⟩
    exact ⟨_, secondChecked⟩
  have lowers {first second : Program} (reorders : first.functions.Perm second.functions) :
      (∃ graphs, first.lower = .ok graphs) → ∃ graphs, second.lower = .ok graphs := by
    rintro ⟨graphs, lowered⟩
    rcases Program.lower_of_perm reorders lowered with ⟨graphOf, -, -, secondLowered⟩
    exact ⟨_, secondLowered⟩
  exact ⟨⟨checks permuted, checks permuted.symm⟩, fun _ => Program.check_of_perm permuted,
    ⟨lowers permuted, lowers permuted.symm⟩, fun _ => Program.lower_of_perm permuted⟩

/-- A function without a result that is called before its definition, and the other way round. -/
theorem functions_reordered_forward :
    ∃ caller callee endOffset callerWarnings calleeWarnings callerGraph calleeGraph,
      parseProgram "int main()\x7bint a;f();\x7dvoid f()\x7bint b;b++;\x7d".toList =
          .ok ⟨[caller, callee], endOffset⟩ ∧
        (⟨[caller, callee], endOffset⟩ : Program).check = .ok (callerWarnings ++ calleeWarnings) ∧
          (⟨[callee, caller], endOffset⟩ : Program).check =
              .ok (calleeWarnings ++ callerWarnings) ∧
            (⟨[caller, callee], endOffset⟩ : Program).lower = .ok [callerGraph, calleeGraph] ∧
              (⟨[callee, caller], endOffset⟩ : Program).lower = .ok [calleeGraph, callerGraph] := by
  have evaluated : (parseProgram
      "int main()\x7bint a;f();\x7dvoid f()\x7bint b;b++;\x7d".toList).toOption.any
        (fun program => program.functions.length == 2 && program.check.toOption.isSome &&
          program.lower.toOption.isSome) = true := by
    cbv
  rcases exists_ok_of_any evaluated with ⟨⟨functions, endOffset⟩, parsed, passes⟩
  simp only [Bool.and_eq_true, beq_iff_eq] at passes
  rcases passes with ⟨⟨two, checks⟩, lowers⟩
  rcases List.length_eq_two.mp two with ⟨caller, callee, rfl⟩
  have permuted : (⟨[caller, callee], endOffset⟩ : Program).functions.Perm
      (⟨[callee, caller], endOffset⟩ : Program).functions :=
    List.Perm.swap callee caller []
  have both := functions_reordered permuted
  rcases exists_ok_of_isSome checks with ⟨warnings, checked⟩
  rcases exists_ok_of_isSome lowers with ⟨graphs, lowered⟩
  rcases both.2.1 warnings checked with ⟨warningsOf, -, rfl, reorderedChecked⟩
  rcases both.2.2.2 graphs lowered with ⟨graphOf, -, rfl, reorderedLowered⟩
  refine ⟨caller, callee, endOffset, warningsOf caller, warningsOf callee,
    graphOf caller, graphOf callee, parsed, ?_, ?_, lowered, reorderedLowered⟩
  · simp [checked]
  · simpa using reorderedChecked

end SmallC
