import SmallC.Proofs.Emission.Anonymous
import SmallC.Proofs.Lowering.Complete
import SmallC.Proofs.Lowering.Renaming

/-!
# Names of variables

The names of variables and parameters matter only for which declaration a name refers to.  Two
programs that differ in names alone, and whose names refer to the same declarations, have the same
assembly, whichever declarations hide which others.
-/

namespace SmallC

open SmallC.Graph

variable {program other : Program}

/-- Programs with the same outline define the same functions. -/
theorem Program.defines_of_outline (outline_eq : program.outline = other.outline) :
    program.defines = other.defines := by
  have names (program : Program) (name : String) :
      program.defines name = program.outline.defines name := by
    simp [Program.defines, Program.outline, FunctionDef.outline, Ident.erased, List.any_map,
      Function.comp_def]
  funext name
  rw [names program, names other, outline_eq]

/-- Programs with the same outline and the same bindings are lowered to graphs with the same
code. -/
theorem Program.sameCode_lower {graphs otherGraphs : List Graph} (formed : program.WellFormed)
    (otherFormed : other.WellFormed) (outline_eq : program.outline = other.outline)
    (bindings_eq : program.functions.map (·.walk.bindings) =
      other.functions.map (·.walk.bindings))
    (lowered : program.lower = .ok graphs) (otherLowered : other.lower = .ok otherGraphs) :
    List.Forall₂ SameCode graphs otherGraphs := by
  rw [Program.lower, Lowering.lowerFunctions_eq_ok_iff] at lowered otherLowered
  rw [← Program.defines_of_outline outline_eq] at otherLowered
  have outlines_eq := congrArg Program.functions outline_eq
  simp only [Program.outline] at outlines_eq
  unfold Program.WellFormed at formed otherFormed
  generalize program.defines = defined at lowered otherLowered
  generalize program.functions = functions at formed outlines_eq bindings_eq lowered
  generalize other.functions = otherFunctions at otherFormed outlines_eq bindings_eq otherLowered
  induction lowered generalizing otherFunctions otherGraphs with
  | nil =>
    cases otherLowered with
    | nil => exact .nil
    | cons _ _ => cases outlines_eq
  | cons firstLowered _ ih =>
    cases otherLowered with
    | nil => cases outlines_eq
    | cons otherFirstLowered otherRest =>
      rw [List.forall_mem_cons] at formed otherFormed
      rcases List.cons.inj outlines_eq with ⟨first_eq, rest_eq⟩
      rcases List.cons.inj bindings_eq with ⟨firstBindings_eq, restBindings_eq⟩
      exact .cons (Lowering.sameCode_lowerFunction formed.1 otherFormed.1 first_eq
          firstBindings_eq firstLowered otherFirstLowered)
        (ih formed.2 _ otherFormed.2 rest_eq restBindings_eq otherRest)

/-- The assembly of a program without comments depends on the names of its variables only through
the declarations that they refer to. -/
theorem assembly_by_binding {text otherText : List Char} {graphs otherGraphs : List Graph}
    (parsed : parseProgram text = .ok program) (otherParsed : parseProgram otherText = .ok other)
    (lowered : program.lower = .ok graphs) (otherLowered : other.lower = .ok otherGraphs)
    (outline_eq : program.outline = other.outline)
    (bindings_eq : program.functions.map (·.walk.bindings) =
      other.functions.map (·.walk.bindings))
    {options : Assembly.Options} (plain : options.comments = false) (target : Target)
    (warnings otherWarnings : List Warning) :
    ∃ assembly,
      (Compilation.assembly target options ⟨graphs, warnings⟩).outcome = .ok assembly ∧
        (Compilation.assembly target options ⟨otherGraphs, otherWarnings⟩).outcome =
          .ok assembly := by
  have formed := Program.wellFormed_of_parse parsed
  have otherFormed := Program.wellFormed_of_parse otherParsed
  have same := Program.sameCode_lower formed otherFormed outline_eq bindings_eq lowered otherLowered
  have graphsFormed : ∀ graph ∈ (⟨graphs, warnings⟩ : Compilation).graphs, graph.WellFormed :=
    Program.wellFormed_of_lower formed lowered
  have otherGraphsFormed :
      ∀ graph ∈ (⟨otherGraphs, otherWarnings⟩ : Compilation).graphs, graph.WellFormed :=
    Program.wellFormed_of_lower otherFormed otherLowered
  rcases exists_lines_outcome_assembly target options graphsFormed with ⟨lines, lines_eq, emitted⟩
  rcases exists_lines_outcome_assembly target options otherGraphsFormed with
    ⟨otherLines, otherLines_eq, otherEmitted⟩
  cases Assembly.emitProgram_of_sameCode plain same lines_eq otherLines_eq
  exact ⟨_, emitted, otherEmitted⟩

/-- A variable that hides another one, and one that does not. -/
theorem assembly_by_binding_hiding :
    ∃ program other graphs otherGraphs assembly,
      parseProgram "int main(int a)\x7bint b=a;\x7bint b=1;b+=a;\x7dreturn b;\x7d".toList =
          .ok program ∧
        parseProgram "int main(int p)\x7bint x=p;\x7bint y=1;y+=p;\x7dreturn x;\x7d".toList =
            .ok other ∧
          program.lower = .ok graphs ∧ other.lower = .ok otherGraphs ∧
            (Compilation.assembly .x86LinuxGnu ⟨false, .plain⟩ ⟨graphs, []⟩).outcome =
                .ok assembly ∧
              (Compilation.assembly .x86LinuxGnu ⟨false, .plain⟩ ⟨otherGraphs, []⟩).outcome =
                .ok assembly := by
  have lowers : (parseProgram
      "int main(int a)\x7bint b=a;\x7bint b=1;b+=a;\x7dreturn b;\x7d".toList).toOption.any
        (fun program => program.lower.toOption.isSome) = true := by
    cbv
  have otherLowers : (parseProgram
      "int main(int p)\x7bint x=p;\x7bint y=1;y+=p;\x7dreturn x;\x7d".toList).toOption.any
        (fun program => program.lower.toOption.isSome) = true := by
    cbv
  have alike : (parseProgram
      "int main(int a)\x7bint b=a;\x7bint b=1;b+=a;\x7dreturn b;\x7d".toList).toOption.map
        (fun program => (program.outline, program.functions.map (·.walk.bindings))) =
      (parseProgram
      "int main(int p)\x7bint x=p;\x7bint y=1;y+=p;\x7dreturn x;\x7d".toList).toOption.map
        (fun program => (program.outline, program.functions.map (·.walk.bindings))) := by
    cbv
  rcases exists_ok_of_any lowers with ⟨program, parsed, isLowered⟩
  rcases exists_ok_of_any otherLowers with ⟨other, otherParsed, otherIsLowered⟩
  rw [parsed, otherParsed] at alike
  rcases Prod.mk.inj (Option.some.inj alike) with ⟨outline_eq, bindings_eq⟩
  cases lowered : program.lower with
  | error fault => simp [lowered, Except.toOption] at isLowered
  | ok graphs =>
    cases otherLowered : other.lower with
    | error fault => simp [otherLowered, Except.toOption] at otherIsLowered
    | ok otherGraphs =>
      have plain : (⟨false, .plain⟩ : Assembly.Options).comments = false := rfl
      rcases assembly_by_binding parsed otherParsed lowered otherLowered outline_eq bindings_eq
        plain .x86LinuxGnu [] [] with ⟨assembly, emitted, otherEmitted⟩
      exact ⟨program, other, graphs, otherGraphs, assembly, parsed, otherParsed, lowered,
        otherLowered, emitted, otherEmitted⟩

end SmallC
