import SmallC.Proofs.Lowering.Complete

/-!
# Lowering only adds to a graph

Lowering a statement or an expression adds to the graph and takes nothing away: blocks, instructions,
links, symbols and names in scope all stay.  This is what lets a construct create the block after it
before its parts are lowered, and link it afterwards.  It holds of every graph and every tree, not
only of those that parsing and lowering give.
-/

namespace SmallC

namespace Lowering

open SmallC.Graph

/-- Lowering an expression or a statement at the end of a graph only adds to the graph, and what
follows is lowered at the end again and inside the same loops.  Only a declaration leaves names
behind. -/
theorem lowering_only_adds (defined : String → Bool) {graph : Graph} (last : graph.AtLast)
    (exitless : graph.Exitless graph.current) :
    (∀ value slot next, lowerExpr defined value graph = .ok (slot, next) →
      Addition [] graph next ∧ next.AtLast ∧
        (next.blocks.size ≤ 2 ^ 32 → next.Exitless next.current)) ∧
      ∀ loop statement next, lowerStmt defined loop statement graph = .ok next →
        Addition statement.declaredNames graph next ∧
          next.AtLast ∧ (next.blocks.size ≤ 2 ^ 32 → next.Exitless next.current) ∧
          (statement.WellFormed → statement.isDeclaration = false → statement.declaredNames = []) ∧
          ∀ others, lowerStmts defined loop (statement :: others) graph =
            lowerStmts defined loop others next := by
  constructor
  · intro value slot next lowered
    have addition := addition_lowerExpr value exitless.hasBlock lowered
    exact ⟨addition, addition.atLast last, fun room => (addition.keeps room).exitless exitless⟩
  · intro loop statement next lowered
    have addition := addition_lowerStmt statement exitless.hasBlock lowered
    refine ⟨addition, addition.atLast last, fun room => (addition.keeps room).exitless exitless,
      statement.declaredNames_eq_nil, fun others => ?_⟩
    rw [lowerStmts, lowered, ok_bind]

/-- A declaration whose initial value takes three blocks. -/
theorem lowering_only_adds_declaration :
    ∃ program function statement next,
      parseProgram "int f()\x7bint a=1||g();\x7d".toList = .ok program ∧
        program.functions.head? = some function ∧
          function.body.statements.head? = some statement ∧
            (Graph.new "f").AtLast ∧ (Graph.new "f").Exitless (Graph.new "f").current ∧
              lowerStmt program.defines none statement (.new "f") = .ok next ∧
                Addition ["a"] (.new "f") next ∧ next.blocks.size = 4 ∧
                  next.Exitless next.current := by
  have evaluated : (parseProgram "int f()\x7bint a=1||g();\x7d".toList).toOption.any
      (fun program => program.functions.head?.any fun function =>
        function.body.statements.head?.any fun statement =>
          statement.declaredNames == ["a"] &&
            (lowerStmt program.defines none statement (.new "f")).toOption.any
              fun next => next.blocks.size == 4) = true := by
    cbv
  obtain ⟨program, parsed, tested⟩ := exists_ok_of_any evaluated
  simp only [Option.any_eq_true _ program.functions.head?, Option.any_eq_true _ (List.head? _),
    Bool.and_eq_true, beq_iff_eq] at tested
  obtain ⟨function, isFunction, statement, isStatement, names_eq, isLowered⟩ := tested
  obtain ⟨next, lowered, size_eq⟩ := exists_ok_of_any isLowered
  rw [beq_iff_eq] at size_eq
  have last : (Graph.new "f").AtLast := rfl
  have exitless : (Graph.new "f").Exitless (Graph.new "f").current := ⟨_, rfl, rfl, rfl⟩
  obtain ⟨addition, -, ends, -⟩ :=
    (lowering_only_adds program.defines last exitless).2 none statement next lowered
  exact ⟨program, function, statement, next, parsed, isFunction, isStatement, last, exitless, lowered,
    names_eq ▸ addition, size_eq, ends (by omega)⟩

end Lowering

end SmallC
