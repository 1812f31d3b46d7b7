import SmallC.Proofs.Graph.Editing
import SmallC.Proofs.Tree.Constructs

/-!
# Sizes of graphs

The number of emitted blocks and the size of the frame of a graph are sums over the constructs of the
function.  Each construct enters its own blocks, each of them once, and takes its own places of the
frame; how the constructs stand in each other makes no difference.
-/

namespace SmallC

namespace Lowering

open SmallC.Graph

variable {graph next : Graph} {slot : Slot}

/-! ## Parameters -/

/-- A later graph with the same blocks, in which some more places of the frame are taken. -/
structure TakesPlaces (count : Nat) (graph next : Graph) : Prop where
  nextOffset_eq : next.nextOffset = graph.nextOffset - 4 * count
  blocks_eq : next.blocks = graph.blocks
  order_eq : next.order = graph.order
  current_eq : next.current = graph.current

/-- A parameter takes a place of the frame when it is passed in a register. -/
theorem takesPlaces_declareParameter {name : String} {position : Nat}
    (accepted : (graph.declareParameter name .int position).accepted = .ok (slot, next)) :
    TakesPlaces (if position < Frame.registerParameters then 1 else 0) graph next := by
  unfold declareParameter at accepted
  split at accepted
  case isFalse => cases accepted
  case isTrue =>
    obtain ⟨middle, declared, listed⟩ := accepted_andThen_eq_ok_iff.mp accepted
    obtain rfl := Except.ok.inj listed
    split at declared
    case isTrue inRegister =>
      obtain ⟨-, declared⟩ := declareRegisterParameter_eq_ok declared
      obtain ⟨-, -, rfl⟩ := declareVariable_eq_ok_iff.mp declared
      rw [if_pos inRegister]
      exact ⟨by simp, rfl, rfl, rfl⟩
    case isFalse onStack =>
      obtain ⟨offset, -, inserted⟩ := insertSymbolAt_eq_ok_iff.mp declared
      obtain ⟨-, -, rfl⟩ := insertSymbol_eq_ok_iff.mp inserted
      rw [if_neg onStack]
      exact ⟨by simp, rfl, rfl, rfl⟩

/-- Parameters from a position on take the places of those among them that are passed in
registers. -/
theorem takesPlaces_declareParameters (parameters : List Parameter) {position : Nat}
    {graph next : Graph} (declared : declareParameters position parameters graph = .ok next) :
    TakesPlaces (min Frame.registerParameters (position + parameters.length) -
      min Frame.registerParameters position) graph next := by
  induction parameters generalizing position graph with
  | nil =>
    cases declared
    exact ⟨by simp, rfl, rfl, rfl⟩
  | cons first others ih =>
    simp only [declareParameters, bind_eq_ok_iff, Prod.exists] at declared
    obtain ⟨slot, middle, firstDeclared, othersDeclared⟩ := declared
    obtain ⟨offset_eq, blocks_eq, order_eq, current_eq⟩ :=
      takesPlaces_declareParameter firstDeclared
    obtain ⟨restOffset_eq, restBlocks_eq, restOrder_eq, restCurrent_eq⟩ := ih othersDeclared
    refine ⟨?_, restBlocks_eq.trans blocks_eq, restOrder_eq.trans order_eq,
      restCurrent_eq.trans current_eq⟩
    rw [restOffset_eq, offset_eq, List.length_cons]
    split <;> omega

end Lowering

/-! ## Main statement -/

/-- The blocks and the frame of a function that was lowered are sums over its constructs: one block
for its start and a number of blocks for every statement and every logical operator by its kind, and
four bytes for every parameter that is passed in a register, every variable and every value that
needs a temporary. -/
theorem graph_size_eq_sum_over_constructs {defined : String → Bool} {function : FunctionDef}
    {graph : Graph} (lowered : Lowering.lowerFunction defined function = .ok graph) :
    graph.order.length = 1 + (function.statements.map Stmt.blockCount).sum +
        3 * function.expressions.countP Expr.isLogical ∧
      graph.localsSize = 4 * (min 6 function.parameters.length + function.declarators.length +
        function.expressions.countP Expr.takesTemporary) := by
  obtain ⟨taken, inside, outer, declared, bodyLowered, -, rfl⟩ :=
    Lowering.lowerFunction_eq_ok_iff.mp lowered
  have parameters := Lowering.takesPlaces_declareParameters function.parameters declared
  have known : (taken.inScopes taken.scopes.enter).HasBlock taken.current := by
    rw [Graph.HasBlock, Graph.inScopes_blocks, parameters.blocks_eq, parameters.current_eq]
    exact Nat.zero_lt_one
  have body := Lowering.built_lowerStmts function.body.statements known bodyLowered
  have order_length := body.order_length
  have nextOffset_eq := body.nextOffset_eq
  rw [Graph.inScopes_order, parameters.order_eq, Stmt.footprintOfAll_eq] at order_length
  rw [Graph.inScopes_nextOffset, parameters.nextOffset_eq, Stmt.footprintOfAll_eq] at nextOffset_eq
  simp only [Footprint.blocks_add, Footprint.symbols_add, Footprint.ofStatements,
    Footprint.ofExpressions, Graph.new, List.length_singleton, Frame.registerParameters]
    at order_length nextOffset_eq
  constructor
  · rw [Graph.inScopes_order, order_length]
    unfold FunctionDef.statements FunctionDef.expressions
    omega
  · rw [Graph.localsSize, Graph.inScopes_nextOffset, nextOffset_eq]
    unfold FunctionDef.declarators FunctionDef.statements FunctionDef.expressions Frame.firstLocal
    omega

/-- Seven parameters, all kinds of loops, and conditions in each other. -/
theorem graph_size_eq_sum_over_constructs_nested :
    ∃ program function graph,
      parseProgram ("int f(int a,int b,int c,int d,int e,int g,int h)\x7bint x=a&&b;" ++
          "for(x=0;x<h;x++)\x7bif(x)continue;else break;\x7d" ++
          "do\x7bwhile(x)x=-x;\x7dwhile(!x||c);if(g)return 1;\x7d").toList = .ok program ∧
        function ∈ program.functions ∧
          Lowering.lowerFunction program.defines function = .ok graph ∧
            graph.order.length = 22 ∧ graph.localsSize = 60 := by
  have evaluated : (parseProgram
      ("int f(int a,int b,int c,int d,int e,int g,int h)\x7bint x=a&&b;" ++
        "for(x=0;x<h;x++)\x7bif(x)continue;else break;\x7d" ++
        "do\x7bwhile(x)x=-x;\x7dwhile(!x||c);if(g)return 1;\x7d").toList).toOption.any
        (fun program => program.functions.any fun function =>
          (Lowering.lowerFunction program.defines function).toOption.isSome &&
            function.parameters.length == 7 && function.declarators.length == 1 &&
              (function.statements.map Stmt.blockCount).sum == 15 &&
                function.expressions.countP Expr.isLogical == 2 &&
                  function.expressions.countP Expr.takesTemporary == 8) = true := by
    cbv
  rcases exists_ok_of_any evaluated with ⟨program, parsed, some⟩
  rcases List.any_eq_true.mp some with ⟨function, member, counted⟩
  simp only [Bool.and_eq_true, beq_iff_eq] at counted
  rcases counted with ⟨⟨⟨⟨⟨lowers, parameters⟩, declared⟩, statements⟩, logical⟩, temporaries⟩
  cases lowered : Lowering.lowerFunction program.defines function with
  | error fault => simp [lowered, Except.toOption] at lowers
  | ok graph =>
    have sizes := graph_size_eq_sum_over_constructs lowered
    rw [parameters, declared, statements, logical, temporaries] at sizes
    exact ⟨program, function, graph, parsed, member, lowered, sizes⟩

end SmallC
