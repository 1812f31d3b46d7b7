import SmallC.Proofs.Parse.Grammatical

/-!
# Places of trees and of syntax errors

The nodes of the tree of a text lie where their tokens are, each in the node around it and after the
nodes before it, and the first syntax error of a text lies in it as well.
-/

namespace SmallC

open Node

/-- All spans of the tree of a text lie in the text, and so does the span of its first syntax
error. -/
theorem parseProgram_places (text : List Char) :
    Outcome (fun error : SyntaxError => error.span.LiesIn text)
      (Program.EverySpan (Span.LiesIn text)) (parseProgram text) := by
  refine (parseProgram_reads text).mono ?_
  rintro program ⟨⟨high, fill⟩, end_eq, -⟩
  have every := fill.every.imp fun node faithful => faithful.delimited.lies
  rw [Program.nodes, everyOf_iff, List.forall_mem_map] at every
  refine ⟨fun function member => function.everySpan_of_node (every function member), ?_⟩
  rw [end_eq]
  exact .point_end text

/-- The tree of a text has faithful spans: every node runs from token to token, lies in the node
around it, stands after the nodes before it and, if it is a name or a literal, is what the text has
there. -/
theorem tree_spans_faithful {text : List Char} {program : Program}
    (parsed : parseProgram text = .ok program) :
    EveryOf (Faithful text) program.nodes ∧
      program.nodes.Pairwise fun first second => first.span.stop ≤ second.span.start := by
  obtain ⟨⟨high, fill⟩, -⟩ := (parseProgram_reads text).of_eq_ok parsed
  exact ⟨fill.every, fill.pairwise⟩

/-- Two functions after a comment with a character of two bytes.  The second one assigns to a
variable in parentheses. -/
theorem tree_spans_faithful_parenthesised :
    ∃ program,
      parseProgram "/* é */ void f()\x7b\x7d int g(int a)\x7b( a ) += - 1;\x7d".toList =
        .ok program ∧
      program.nodes.map Node.span = [⟨9, 19⟩, ⟨20, 47⟩] ∧
      EveryOf (Faithful "/* é */ void f()\x7b\x7d int g(int a)\x7b( a ) += - 1;\x7d".toList)
        program.nodes ∧
      program.nodes.Pairwise fun first second => first.span.stop ≤ second.span.start := by
  have evaluated : (parseProgram
      "/* é */ void f()\x7b\x7d int g(int a)\x7b( a ) += - 1;\x7d".toList).toOption.any
        (fun program => program.nodes.map Node.span = [⟨9, 19⟩, ⟨20, 47⟩]) = true := by
    cbv
  rcases exists_ok_of_any evaluated with ⟨program, parsed, spans⟩
  exact ⟨program, parsed, of_decide_eq_true spans, tree_spans_faithful parsed⟩

end SmallC
