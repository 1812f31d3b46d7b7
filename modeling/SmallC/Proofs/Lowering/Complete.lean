import SmallC.Proofs.Emission.Code
import SmallC.Proofs.Lowering.Scoping
import SmallC.Proofs.Parse.Grammatical

/-!
# Checked programs compile

A program that parses and passes the checks is lowered, listed and emitted without a fault, as long
as its functions are small enough for keys and offsets of 32 bits.  The number of symbols bounds all
offsets below the frame base; those of stack parameters grow twice as fast, which is the only other
limit.
-/

namespace SmallC

namespace Lowering

open SmallC.Graph Semantic

variable {defined isVoid : String → Bool} {function : FunctionDef} {warnings : List Warning}

/-- The checks of a function start with the names of its parameters, and accord with the lowering of
its body. -/
theorem accords_body (isVoid defined : String → Bool) {taken : Graph}
    (tree : function.WellFormed)
    (took : TookParameters function.parameters (.new function.name.name) taken) :
    Accords Graph.scopes
      (checkStmts isVoid false function.body.statements (initialState function.parameters).enter)
      (lowerStmts defined none function.body.statements (taken.inScopes taken.scopes.enter)) := by
  have tracks : (initialState function.parameters).Tracks taken.scopes := by
    refine took.related_single tree.parameters ?_ fun _ _ _ => trivial
    rw [List.forall₂_map_left_iff]
    exact List.forall₂_same.mpr fun _ _ => rfl
  exact accords_lowerStmts function.body.statements tree.body tracks.enter

/-- A function that passes the checks can be lowered where its parameters and its footprint fit. -/
theorem exists_lowerFunction (defined : String → Bool) (tree : function.WellFormed)
    (checked : checkFunction isVoid function = .ok warnings)
    (symbols : function.footprint.symbols < 2 ^ 29) (blocks : function.footprint.blocks < 2 ^ 32)
    (parameters : function.parameters.length ≤ Frame.maxParameters) :
    ∃ graph, lowerFunction defined function = .ok graph := by
  unfold checkFunction at checked
  split at checked
  · cases checked
  · rename_i different
    simp only [bind_eq_ok_iff, pure_eq_ok, Except.ok.injEq] at checked
    obtain ⟨last, bodyChecked, -⟩ := checked
    obtain ⟨taken, declared⟩ := exists_declareParameters function.parameters
      (takesParameters_new function.name.name) tree.parameters (fun _ => rfl) different
      (by simpa [Graph.new, Table.empty, Table.size] using parameters)
    have took := (takes_parameters tree declared).took
    have body := outcome_lowerBody defined took tree (fun _ scoping => scoping)
      (.inr symbols) (.inr blocks)
    have accords := accords_body isVoid defined tree took
    -- Any fault would be about scoping, which the checks have excluded.
    cases insideLowered : lowerStmts defined none function.body.statements
        (taken.inScopes taken.scopes.enter) with
    | error fault =>
      have scoping := body.of_eq_error insideLowered
      rw [accords.of_eq_error insideLowered ⟨last, bodyChecked⟩] at scoping
      cases scoping
    | ok inside =>
      have left := (body.of_eq_ok insideLowered).addition.scopes.leave?_eq
      exact ⟨_, lowerFunction_eq_ok_iff.mpr
        ⟨taken, inside, taken.scopes, declared, insideLowered, left, rfl⟩⟩

/-! ## Programs -/

/-- A graph with exactly the symbols and blocks of the footprint of its function. -/
def HasFootprint (function : FunctionDef) (graph : Graph) : Prop :=
  graph.symbols.size = function.footprint.symbols ∧ graph.blocks.size = function.footprint.blocks

variable {functions : List FunctionDef}

theorem exists_lowerFunctions (tree : ∀ function ∈ functions, function.WellFormed)
    (checked : checkFunctions isVoid functions = .ok warnings)
    (small : ∀ function ∈ functions,
      function.footprint.symbols < 2 ^ 29 ∧ function.footprint.blocks < 2 ^ 32)
    (parameters : ∀ function ∈ functions, function.parameters.length ≤ Frame.maxParameters) :
    ∃ graphs, lowerFunctions defined functions = .ok graphs := by
  induction functions generalizing warnings with
  | nil => exact ⟨[], rfl⟩
  | cons first others ih =>
    rw [List.forall_mem_cons] at tree small parameters
    simp only [checkFunctions, bind_eq_ok_iff] at checked
    obtain ⟨_, firstChecked, _, othersChecked, -⟩ := checked
    obtain ⟨graph, graph_eq⟩ :=
      exists_lowerFunction defined tree.1 firstChecked small.1.1 small.1.2 parameters.1
    obtain ⟨graphs, graphs_eq⟩ := ih tree.2 othersChecked small.2 parameters.2
    exact ⟨graph :: graphs, by simp [lowerFunctions, graph_eq, graphs_eq]⟩

variable {graphs : List Graph}

/-- Every function of a lowered program has its graph, in the same order. -/
theorem functionLowered_of_lowerFunctions (tree : ∀ function ∈ functions, function.WellFormed)
    (lowered : lowerFunctions defined functions = .ok graphs) :
    List.Forall₂ (fun function graph => lowerFunction defined function = .ok graph ∧
      ∃ taken, FunctionLowered defined function taken graph) functions graphs := by
  induction functions generalizing graphs with
  | nil =>
    cases lowered
    exact .nil
  | cons first others ih =>
    rw [List.forall_mem_cons] at tree
    simp only [lowerFunctions, bind_eq_ok_iff, pure_eq_ok, Except.ok.injEq] at lowered
    obtain ⟨graph, graph_eq, rest, rest_eq, rfl⟩ := lowered
    exact .cons ⟨graph_eq, functionLowered_of_lowerFunction tree.1 graph_eq⟩ (ih tree.2 rest_eq)

end Lowering

/-- Whatever stands on the right of related lists is related to something on the left. -/
theorem exists_mem_of_forall₂ {α β : Type} {R : α → β → Prop} {left : List α} {right : List β}
    (related : List.Forall₂ R left right) {second : β} (member : second ∈ right) :
    ∃ first ∈ left, R first second := by
  induction related with
  | nil => cases member
  | cons head _ ih =>
    rcases List.mem_cons.mp member with rfl | later
    · exact ⟨_, List.mem_cons_self, head⟩
    · obtain ⟨first, present, holds⟩ := ih later
      exact ⟨first, List.mem_cons_of_mem _ present, holds⟩

variable {program : Program}

/-- The graphs of a program are well-formed. -/
theorem Program.wellFormed_of_lower (tree : program.WellFormed)
    (lowered : program.lower = .ok graphs) :
    ∀ graph ∈ graphs, graph.WellFormed := by
  intro graph member
  have all := Lowering.functionLowered_of_lowerFunctions tree lowered
  obtain ⟨function, -, -, taken, functionLowered⟩ := exists_mem_of_forall₂ all member
  exact functionLowered.kept.formed

theorem Program.checkFunctions_of_check {warnings : List Warning}
    (checked : program.check = .ok warnings) :
    ∃ found, Semantic.checkFunctions program.definesVoid program.functions = .ok found := by
  obtain ⟨-, -, functionsChecked⟩ := Program.check_eq_ok_iff.mp checked
  exact ⟨warnings, functionsChecked⟩

/-! ## Compilation -/

/-- What compiling a program that passes the checks gives. -/
theorem outcome_compile {source : Source} {warnings : List Warning}
    (parsed : parseProgram source.text = .ok program) (checked : program.check = .ok warnings) :
    (compile source).outcome =
      (program.lower.mapError .internal).map fun graphs => ⟨graphs, warnings⟩ := by
  simp only [compile, parsed, checked, bind, Logged.andThen, Logged.entry, Logged.entries,
    Logged.quiet, Except.mapError]
  cases program.lower with
  | error fault | ok graphs => rfl

/-- The graphs of a text, from the evaluation of a test on them. -/
theorem exists_lowered_of_any {text : List Char} {test : List Graph → Bool}
    (evaluated : (parseProgram text).toOption.any (fun program =>
      program.lower.toOption.any test) = true) :
    ∃ program graphs, parseProgram text = .ok program ∧ program.lower = .ok graphs ∧
      test graphs = true := by
  obtain ⟨program, parsed, lowers⟩ := exists_ok_of_any evaluated
  obtain ⟨graphs, lowered, tested⟩ := exists_ok_of_any lowers
  exact ⟨program, graphs, parsed, lowered, tested⟩

/-- A compiled text, from the evaluation of a test on its tree and its graphs. -/
theorem exists_compiled_of_any {source : Source} {test : Program → List Graph → Bool}
    (evaluated : (parseProgram source.text).toOption.any (fun program =>
      program.check.toOption.isSome && program.lower.toOption.any (test program)) = true) :
    ∃ program compilation, parseProgram source.text = .ok program ∧
      (compile source).outcome = .ok compilation ∧ test program compilation.graphs = true := by
  obtain ⟨program, parsed, passes⟩ := exists_ok_of_any evaluated
  rw [Bool.and_eq_true] at passes
  obtain ⟨warnings, checked⟩ := exists_ok_of_isSome passes.1
  obtain ⟨graphs, lowered, tested⟩ := exists_ok_of_any passes.2
  refine ⟨program, ⟨graphs, warnings⟩, parsed, ?_, tested⟩
  rw [outcome_compile parsed checked, lowered]
  rfl

variable {compilation : Compilation}

theorem exists_outcome_listing (palette : Palette)
    (formed : ∀ graph ∈ compilation.graphs, graph.WellFormed) :
    ∃ text, (compilation.listing palette).outcome = .ok text := by
  obtain ⟨texts, texts_eq⟩ := Graph.exists_listings palette formed
  have listing_eq : Graph.listingOfAll palette compilation.graphs =
      .ok ("\n".intercalate texts) := by
    rw [Graph.listingOfAll, texts_eq]
    rfl
  exact ⟨_, by rw [Compilation.listing, listing_eq]; rfl⟩

theorem exists_emittedBlocks (formed : ∀ graph ∈ graphs, graph.WellFormed) :
    ∃ blocks, Compilation.emittedBlocks graphs = .ok blocks := by
  have ordered : ∀ graph ∈ graphs, ∃ blocks, graph.orderedBlocks = .ok blocks := by
    intro graph member
    refine exists_mapM fun id emitted => ?_
    obtain ⟨block, found⟩ := Graph.exists_block ((formed graph member).order_known id emitted)
    exact ⟨(id, block), by simp [Graph.block_eq_ok_iff.mpr found]⟩
  obtain ⟨blocks, blocks_eq⟩ := exists_mapM ordered
  exact ⟨_, by rw [Compilation.emittedBlocks, blocks_eq]; rfl⟩

/-- The assembly of graphs is the text of their lines. -/
theorem exists_lines_outcome_assembly (target : Target) (options : Assembly.Options)
    (formed : ∀ graph ∈ compilation.graphs, graph.WellFormed) :
    ∃ lines, Assembly.emitProgram options compilation.graphs = .ok lines ∧
      (compilation.assembly target options).outcome = .ok (Assembly.Line.render lines) := by
  obtain ⟨blocks, blocks_eq⟩ := exists_emittedBlocks formed
  obtain ⟨functions, functions_eq⟩ := Assembly.exists_emitFunctions options formed
  have lines_eq : Assembly.emitProgram options compilation.graphs =
      .ok (Assembly.fileHeader ++ (if functions.isEmpty then [.blank] else functions) ++
        Assembly.fileFooter) := by
    rw [Assembly.emitProgram, functions_eq]
    rfl
  refine ⟨_, lines_eq, ?_⟩
  simp [Compilation.assembly, blocks_eq, lines_eq, bind, Logged.andThen, Logged.entry,
    Logged.entries, Logged.quiet, Except.mapError, pure]

theorem exists_outcome_assembly (target : Target) (options : Assembly.Options)
    (formed : ∀ graph ∈ compilation.graphs, graph.WellFormed) :
    ∃ text, (compilation.assembly target options).outcome = .ok text := by
  obtain ⟨lines, -, outcome_eq⟩ := exists_lines_outcome_assembly target options formed
  exact ⟨_, outcome_eq⟩

/-- A program that parses and passes the checks, and whose functions have less than `2 ^ 29` symbols
and `2 ^ 32` blocks, compiles, and its graphs can be listed and emitted in every way.  The only
thing that can still be in the way is a function with so many parameters that the offsets of those
on the stack do not fit into 32 bits. -/
theorem compile_completes_iff {source : Source} {program : Program} {warnings : List Warning}
    (parsed : parseProgram source.text = .ok program) (checked : program.check = .ok warnings)
    (small : ∀ function ∈ program.functions,
      function.footprint.symbols < 2 ^ 29 ∧ function.footprint.blocks < 2 ^ 32) :
    (∃ compilation, (compile source).outcome = .ok compilation ∧
        List.Forall₂ Lowering.HasFootprint program.functions compilation.graphs ∧
          (∀ palette, ∃ text, (compilation.listing palette).outcome = .ok text) ∧
            ∀ target options, ∃ text, (compilation.assembly target options).outcome = .ok text) ↔
      ∀ function ∈ program.functions, function.parameters.length ≤ Frame.maxParameters := by
  have tree := Program.wellFormed_of_parse parsed
  rw [outcome_compile parsed checked]
  constructor
  · rintro ⟨compilation, compiled, -⟩ function member
    cases lowered : program.lower with
    | error fault =>
      rw [lowered] at compiled
      cases compiled
    | ok graphs =>
      have all := Lowering.functionLowered_of_lowerFunctions tree lowered
      obtain ⟨graph, -, -, taken, functionLowered⟩ := exists_mem_of_forall₂ all.flip member
      have limit := functionLowered.took.limit
      simpa [Graph.new, Table.empty, Table.size] using limit
  · intro parameters
    obtain ⟨_, functionsChecked⟩ := Program.checkFunctions_of_check checked
    obtain ⟨graphs, lowered⟩ : ∃ graphs, program.lower = .ok graphs :=
      Lowering.exists_lowerFunctions tree functionsChecked small parameters
    have formed := Program.wellFormed_of_lower tree lowered
    have footprints : List.Forall₂ Lowering.HasFootprint program.functions graphs := by
      refine (Lowering.functionLowered_of_lowerFunctions tree lowered).imp ?_
      rintro function graph ⟨-, taken, functionLowered⟩
      exact functionLowered.sizes_eq
    refine ⟨⟨graphs, warnings⟩, by rw [lowered]; rfl, footprints, ?_, ?_⟩
    · exact fun palette => exists_outcome_listing palette formed
    · exact fun target options => exists_outcome_assembly target options formed

/-- A program with a loop and an external call compiles. -/
theorem compile_completes_countdown :
    ∃ program warnings compilation,
      parseProgram (Source.ofText "int main(int a)\x7bwhile(a&&f(a))a--;\x7d").text = .ok program ∧
        program.check = .ok warnings ∧
          (compile (Source.ofText "int main(int a)\x7bwhile(a&&f(a))a--;\x7d")).outcome =
              .ok compilation ∧
            List.Forall₂ Lowering.HasFootprint program.functions compilation.graphs := by
  have evaluated : (parseProgram
      (Source.ofText "int main(int a)\x7bwhile(a&&f(a))a--;\x7d").text).toOption.any (fun program =>
        program.check.toOption.isSome && program.functions.all fun function =>
          decide (function.footprint.symbols < 2 ^ 29 ∧ function.footprint.blocks < 2 ^ 32 ∧
            function.parameters.length ≤ 2 ^ 28 + 4)) = true := by
    cbv
  obtain ⟨program, parsed, passes⟩ := exists_ok_of_any evaluated
  simp only [Bool.and_eq_true, List.all_eq_true, decide_eq_true_eq] at passes
  obtain ⟨checks, fits⟩ := passes
  obtain ⟨warnings, checked⟩ := exists_ok_of_isSome checks
  have small : ∀ function ∈ program.functions,
      function.footprint.symbols < 2 ^ 29 ∧ function.footprint.blocks < 2 ^ 32 :=
    fun function member => ⟨(fits function member).1, (fits function member).2.1⟩
  have parameters : ∀ function ∈ program.functions,
      function.parameters.length ≤ Frame.maxParameters := fun function member => by
    unfold Frame.maxParameters
    exact (fits function member).2.2
  obtain ⟨compilation, compiled, footprints, -⟩ :=
    (compile_completes_iff parsed checked small).mpr parameters
  exact ⟨program, warnings, compilation, parsed, checked, compiled, footprints⟩

end SmallC
