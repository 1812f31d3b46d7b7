import SmallC.Proofs.Token.Coverage
import SmallC.Proofs.Tree.Spans

/-!
# The nodes of a tree

Every part of a program that carries a span is a node, and the parts in it are its children in the
order of the text.  The spans of a tree are faithful to a text when every node runs from the start
of a token to the end of one, holds its children one after another, and has the text there that the
tree gives for it.
-/

namespace SmallC

open Text

/-! ## Spans from token to token -/

/-- The part of a text between the parts before it and after it. -/
theorem Text.slice?_append (before inner after : List Char) :
    slice? (before ++ (inner ++ after)) (byteLength before) (byteLength before + byteLength inner) =
      some inner := by
  rw [slice?, if_pos (Nat.le_add_right _ _), splitAt?_append, Option.bind_some,
    Nat.add_sub_cancel_left, splitAt?_append, Option.map_some]

/-- The text at the span of a token is the text of the token. -/
theorem slice?_of_mem_lexItems {text : List Char} {token : Token}
    (found : .ok token ∈ lexItems text) :
    slice? text token.span.start token.span.stop = some token.text.toList := by
  obtain ⟨before, c, after, text_eq, cut_eq⟩ := exists_cut_of_mem_lexItems found
  rw [← (Piece.cut_covers c after).1] at text_eq
  generalize Piece.cut c after = piece at text_eq cut_eq
  obtain ⟨sort, chars, rest⟩ := piece
  cases sort with
  | token kind =>
    cases cut_eq
    rw [text_eq, slice?_append, String.toList_ofList]
  | blank | malformed cause => cases cut_eq

namespace Span

/-- A span with something in it that runs from the start of a token to the end of one. -/
structure Delimited (text : List Char) (span : Span) : Prop where
  nonempty : span.start < span.stop
  start : ∃ token : Token, .ok token ∈ lexItems text ∧ token.span.start = span.start
  stop : ∃ token : Token, .ok token ∈ lexItems text ∧ token.span.stop = span.stop

namespace Delimited

variable {text : List Char}

theorem of_mem_lexItems {token : Token} (found : .ok token ∈ lexItems text) :
    token.span.Delimited text :=
  ⟨(covered_lexItems text).nonempty _ found, ⟨token, found, rfl⟩, ⟨token, found, rfl⟩⟩

/-- From the start of one such span to the end of another. -/
theorem through {first last : Span} (firstDelimited : first.Delimited text)
    (lastDelimited : last.Delimited text) (reach : first.stop ≤ last.stop) :
    (first.through last).Delimited text :=
  ⟨firstDelimited.nonempty.trans_le reach, firstDelimited.start, lastDelimited.stop⟩

theorem lies {span : Span} (delimited : span.Delimited text) : span.LiesIn text := by
  obtain ⟨nonempty, ⟨first, firstFound, start_eq⟩, ⟨last, lastFound, stop_eq⟩⟩ := delimited
  have covered := covered_lexItems text
  refine ⟨nonempty.le, ?_, ?_⟩
  · exact start_eq ▸ (covered.lies _ firstFound).start
  · exact stop_eq ▸ (covered.lies _ lastFound).stop

end Delimited

end Span

/-! ## Nodes -/

/-- A part of a program: its span, its text when it is a name or a literal, and the parts in it. -/
inductive Node where
  | mk (span : Span) (written : Option String) (children : List Node)

namespace Node

def span : Node → Span
  | .mk span _ _ => span

def written : Node → Option String
  | .mk _ written _ => written

def children : Node → List Node
  | .mk _ _ children => children

/-- An operator, which has no parts. -/
def leaf (span : Span) : Node :=
  .mk span none []

end Node

/-- A name as a node. -/
def Ident.node (name : Ident) : Node :=
  .mk name.span (some name.name) []

/-- A literal as a node. -/
def Literal.node (written : Literal) : Node :=
  .mk written.span (some written.text) []

mutual

/-- An expression as a node. -/
def Expr.node : Expr → Node
  | .literal written => .mk written.span none [written.node]
  | .identifier name => .mk name.span none [name.node]
  | .group span inner => .mk span none [inner.node]
  | .call span callee arguments => .mk span none (callee.node :: Expr.nodes arguments)
  | .binary span _ opSpan left right => .mk span none [left.node, .leaf opSpan, right.node]
  | .unary span _ opSpan operand => .mk span none [.leaf opSpan, operand.node]
  | .step span _ _ target => .mk span none [target.node]
  | .assign span target op value =>
    .mk span none (target.node :: op.toList.map (fun entry => .leaf entry.2) ++ [value.node])

/-- Expressions as nodes. -/
def Expr.nodes : List Expr → List Node
  | [] => []
  | first :: others => first.node :: Expr.nodes others

end

/-- A declarator as a node. -/
def Declarator.node (declarator : Declarator) : Node :=
  .mk declarator.span none (declarator.name.node :: declarator.initializer.toList.map Expr.node)

/-- What a `for` statement does before its loop starts, if anything, as nodes. -/
def ForInitializer.nodes : Option ForInitializer → List Node
  | none => []
  | some (.declaration declarators) => declarators.map Declarator.node
  | some (.expression value) => [value.node]

mutual

/-- A statement as a node.  A block statement has the block in it, with the same span. -/
def Stmt.node : Stmt → Node
  | .declaration span declarators => .mk span none (declarators.map Declarator.node)
  | .expression span value => .mk span none [value.node]
  | .block span statements => .mk span none [.mk span none (Stmt.nodes statements)]
  | .ifThen span condition positive => .mk span none [condition.node, positive.node]
  | .ifElse span condition positive negative =>
    .mk span none [condition.node, positive.node, negative.node]
  | .whileLoop span condition body => .mk span none [condition.node, body.node]
  | .doWhile span body condition => .mk span none [body.node, condition.node]
  | .forLoop span initializer test after body =>
    .mk span none (ForInitializer.nodes initializer ++ test.toList.map Expr.node ++
      after.toList.map Expr.node ++ [body.node])
  | .breakLoop span => .mk span none []
  | .continueLoop span => .mk span none []
  | .returnValue span value => .mk span none (value.toList.map Expr.node)
  | .empty span => .mk span none []

/-- Statements as nodes. -/
def Stmt.nodes : List Stmt → List Node
  | [] => []
  | first :: others => first.node :: Stmt.nodes others

end

/-- A parameter as a node. -/
def Parameter.node (parameter : Parameter) : Node :=
  .mk parameter.span none [parameter.name.node]

/-- A block as a node. -/
def Block.node (block : Block) : Node :=
  .mk block.span none (Stmt.nodes block.statements)

/-- A function as a node. -/
def FunctionDef.node (function : FunctionDef) : Node :=
  .mk function.span none
    (function.name.node :: function.parameters.map Parameter.node ++ [function.body.node])

/-- The functions of a program as nodes.  The program itself has no span. -/
def Program.nodes (program : Program) : List Node :=
  program.functions.map FunctionDef.node

theorem Expr.span_node (value : Expr) : value.node.span = value.span := by
  cases value <;> rfl

/-! ## Every node -/

namespace Node

variable {holds weaker : Node → Prop}

mutual

/-- Something holds of a node and of every node in it. -/
def Every (holds : Node → Prop) : Node → Prop
  | .mk span written children => holds (.mk span written children) ∧ EveryOf holds children

/-- Something holds of nodes and of every node in them. -/
def EveryOf (holds : Node → Prop) : List Node → Prop
  | [] => True
  | first :: others => first.Every holds ∧ EveryOf holds others

end

theorem everyOf_iff {nodes : List Node} :
    EveryOf holds nodes ↔ ∀ node ∈ nodes, node.Every holds := by
  induction nodes with
  | nil => simp [EveryOf]
  | cons first others ih => rw [EveryOf, ih, List.forall_mem_cons]

theorem everyOf_append {nodes others : List Node} :
    EveryOf holds (nodes ++ others) ↔ EveryOf holds nodes ∧ EveryOf holds others := by
  simp only [everyOf_iff, List.forall_mem_append]

mutual

theorem Every.imp (weaken : ∀ node, holds node → weaker node) :
    {node : Node} → node.Every holds → node.Every weaker
  | .mk _ _ _, every => ⟨weaken _ every.1, EveryOf.imp weaken every.2⟩

theorem EveryOf.imp (weaken : ∀ node, holds node → weaker node) :
    {nodes : List Node} → EveryOf holds nodes → EveryOf weaker nodes
  | [], _ => trivial
  | _ :: _, every => ⟨every.1.imp weaken, EveryOf.imp weaken every.2⟩

end

end Node

/-! The nodes of a tree carry all its spans. -/

section EverySpan

variable {holds : Span → Prop}

/-- Something holds of the span of a node. -/
abbrev Node.HasSpan (holds : Span → Prop) (node : Node) : Prop :=
  holds node.span

mutual

theorem Expr.everySpan_of_node :
    (value : Expr) → value.node.Every (Node.HasSpan holds) → value.EverySpan holds
  | .literal _, every | .identifier _, every => every.1
  | .group _ inner, every => ⟨every.1, inner.everySpan_of_node every.2.1⟩
  | .call _ _ arguments, every =>
    ⟨every.1, every.2.1.1, Expr.allEverySpan_of_nodes arguments every.2.2⟩
  | .binary _ _ _ left right, every =>
    ⟨every.1, every.2.2.1.1, left.everySpan_of_node every.2.1,
      right.everySpan_of_node every.2.2.2.1⟩
  | .unary _ _ _ operand, every =>
    ⟨every.1, every.2.1.1, operand.everySpan_of_node every.2.2.1⟩
  | .step _ _ _ _, every => ⟨every.1, every.2.1.1⟩
  | .assign _ _ none value, every =>
    ⟨every.1, every.2.1.1, nofun, value.everySpan_of_node every.2.2.1⟩
  | .assign _ _ (some (_, _)) value, every =>
    ⟨every.1, every.2.1.1, fun _ isEntry => Option.mem_some.mp isEntry ▸ every.2.2.1.1,
      value.everySpan_of_node every.2.2.2.1⟩

theorem Expr.allEverySpan_of_nodes :
    (values : List Expr) → Node.EveryOf (Node.HasSpan holds) (Expr.nodes values) →
      Expr.AllEverySpan holds values
  | [], _ => trivial
  | first :: others, every =>
    ⟨first.everySpan_of_node every.1, Expr.allEverySpan_of_nodes others every.2⟩

end

theorem Expr.everySpan_of_mem {optional : Option Expr}
    (every : Node.EveryOf (Node.HasSpan holds) (optional.toList.map Expr.node)) :
    ∀ value ∈ optional, value.EverySpan holds := by
  rintro value ⟨⟩
  exact value.everySpan_of_node every.1

theorem Declarator.everySpan_of_node (declarator : Declarator)
    (every : declarator.node.Every (Node.HasSpan holds)) : declarator.EverySpan holds :=
  ⟨every.1, every.2.1.1, Expr.everySpan_of_mem every.2.2⟩

theorem Declarator.everySpan_of_nodes {declarators : List Declarator}
    (every : Node.EveryOf (Node.HasSpan holds) (declarators.map Declarator.node)) :
    ∀ declarator ∈ declarators, declarator.EverySpan holds := by
  rw [Node.everyOf_iff, List.forall_mem_map] at every
  exact fun declarator member => declarator.everySpan_of_node (every declarator member)

theorem ForInitializer.everySpan_of_mem {initializer : Option ForInitializer}
    (every : Node.EveryOf (Node.HasSpan holds) (ForInitializer.nodes initializer)) :
    ∀ first ∈ initializer, first.EverySpan holds := by
  rintro first ⟨⟩
  cases first with
  | declaration declarators => exact Declarator.everySpan_of_nodes every
  | expression value => exact value.everySpan_of_node every.1

mutual

theorem Stmt.everySpan_of_node :
    (statement : Stmt) → statement.node.Every (Node.HasSpan holds) → statement.EverySpan holds
  | .declaration _ _, every => ⟨every.1, Declarator.everySpan_of_nodes every.2⟩
  | .expression _ value, every => ⟨every.1, value.everySpan_of_node every.2.1⟩
  | .block _ statements, every =>
    ⟨every.1, Stmt.allEverySpan_of_nodes statements every.2.1.2⟩
  | .ifThen _ condition positive, every =>
    ⟨every.1, condition.everySpan_of_node every.2.1, positive.everySpan_of_node every.2.2.1⟩
  | .ifElse _ condition positive negative, every =>
    ⟨every.1, condition.everySpan_of_node every.2.1, positive.everySpan_of_node every.2.2.1,
      negative.everySpan_of_node every.2.2.2.1⟩
  | .whileLoop _ condition body, every =>
    ⟨every.1, condition.everySpan_of_node every.2.1, body.everySpan_of_node every.2.2.1⟩
  | .doWhile _ body condition, every =>
    ⟨every.1, body.everySpan_of_node every.2.1, condition.everySpan_of_node every.2.2.1⟩
  | .forLoop _ _ _ _ body, every => by
      obtain ⟨own, inside⟩ := every
      simp only [Node.everyOf_append] at inside
      obtain ⟨⟨⟨initializer, test⟩, after⟩, inner⟩ := inside
      exact ⟨own, ForInitializer.everySpan_of_mem initializer, Expr.everySpan_of_mem test,
        Expr.everySpan_of_mem after, body.everySpan_of_node inner.1⟩
  | .breakLoop _, every | .continueLoop _, every => every.1
  | .returnValue _ _, every => ⟨every.1, Expr.everySpan_of_mem every.2⟩
  | .empty _, every => every.1

theorem Stmt.allEverySpan_of_nodes :
    (statements : List Stmt) → Node.EveryOf (Node.HasSpan holds) (Stmt.nodes statements) →
      Stmt.AllEverySpan holds statements
  | [], _ => trivial
  | first :: others, every =>
    ⟨first.everySpan_of_node every.1, Stmt.allEverySpan_of_nodes others every.2⟩

end

theorem FunctionDef.everySpan_of_node (function : FunctionDef)
    (every : function.node.Every (Node.HasSpan holds)) : function.EverySpan holds := by
  obtain ⟨own, inside⟩ := every
  rw [Node.everyOf_append, Node.EveryOf, Node.everyOf_iff, List.forall_mem_map] at inside
  obtain ⟨⟨name, parameters⟩, body, -⟩ := inside
  refine ⟨own, name.1, fun parameter member => ?_, body.1, Stmt.allEverySpan_of_nodes _ body.2⟩
  exact ⟨(parameters parameter member).1, (parameters parameter member).2.1.1⟩

end EverySpan

/-! ## Spans that are faithful to a text -/

namespace Node

variable {text : List Char}

/-- The span of a node is faithful to a text: it runs from token to token, the children of the node
lie in it one after another, and a name or a literal is what the text has there. -/
structure Faithful (text : List Char) (node : Node) : Prop where
  delimited : node.span.Delimited text
  inside : ∀ child ∈ node.children,
    node.span.start ≤ child.span.start ∧ child.span.stop ≤ node.span.stop
  ordered : node.children.Pairwise fun first second => first.span.stop ≤ second.span.start
  written : ∀ name ∈ node.written, slice? text node.span.start node.span.stop = some name.toList

mutual

/-- A node whose children lie in it one after another, and so on for each of them. -/
def LaidOut (text : List Char) : Node → Prop
  | .mk span written children =>
    span.Delimited text ∧
      (∀ name ∈ written, slice? text span.start span.stop = some name.toList) ∧
      Fill text span.start span.stop children

/-- Nodes that lie between two offsets one after another. -/
def Fill (text : List Char) (low high : Nat) : List Node → Prop
  | [] => low ≤ high
  | first :: others =>
    low ≤ first.span.start ∧ first.LaidOut text ∧ Fill text first.span.stop high others

end

theorem LaidOut.delimited {node : Node} (laidOut : node.LaidOut text) :
    node.span.Delimited text := by
  cases node with
  | mk span written children => exact laidOut.1

/-- An operator is laid out where it runs from token to token. -/
theorem laidOut_leaf {span : Span} (delimited : span.Delimited text) : (leaf span).LaidOut text :=
  ⟨delimited, nofun, delimited.nonempty.le⟩

namespace Fill

variable {low middle high : Nat} {nodes others : List Node}

theorem nil (le : low ≤ high) : Fill text low high [] :=
  le

theorem le (fill : Fill text low high nodes) : low ≤ high := by
  induction nodes generalizing low with
  | nil => exact fill
  | cons first others ih =>
    obtain ⟨after, laidOut, later⟩ := fill
    exact after.trans (laidOut.delimited.nonempty.le.trans (ih later))

/-- Nodes between two offsets lie between any that are further out. -/
theorem mono {lower higher : Nat} (fill : Fill text low high nodes) (below : lower ≤ low)
    (above : high ≤ higher) : Fill text lower higher nodes := by
  induction nodes generalizing low lower with
  | nil => exact below.trans (le_trans (show low ≤ high from fill) above)
  | cons first others ih => exact ⟨below.trans fill.1, fill.2.1, ih fill.2.2 le_rfl⟩

theorem append (fill : Fill text low middle nodes) (later : Fill text middle high others) :
    Fill text low high (nodes ++ others) := by
  induction nodes generalizing low with
  | nil => exact later.mono fill le_rfl
  | cons first rest ih => exact ⟨fill.1, fill.2.1, ih fill.2.2⟩

theorem bounds (fill : Fill text low high nodes) :
    ∀ node ∈ nodes, low ≤ node.span.start ∧ node.span.stop ≤ high := by
  induction nodes generalizing low with
  | nil => exact List.forall_mem_nil _
  | cons first others ih =>
    obtain ⟨after, laidOut, later⟩ := fill
    refine List.forall_mem_cons.mpr ⟨⟨after, later.le⟩, fun node member => ?_⟩
    have ⟨below, above⟩ := ih later node member
    exact ⟨after.trans (laidOut.delimited.nonempty.le.trans below), above⟩

theorem pairwise (fill : Fill text low high nodes) :
    nodes.Pairwise fun first second => first.span.stop ≤ second.span.start := by
  induction nodes generalizing low with
  | nil => exact .nil
  | cons first others ih =>
    obtain ⟨-, -, later⟩ := fill
    exact .cons (fun node member => (later.bounds node member).1) (ih later)

end Fill

mutual

/-- Every node of a tree that is laid out has a faithful span. -/
theorem LaidOut.every : {node : Node} → node.LaidOut text → node.Every (Faithful text)
  | .mk _ _ _, laidOut =>
    ⟨⟨laidOut.1, laidOut.2.2.bounds, laidOut.2.2.pairwise, laidOut.2.1⟩, laidOut.2.2.every⟩

theorem Fill.every {low high : Nat} :
    {nodes : List Node} → Fill text low high nodes → EveryOf (Faithful text) nodes
  | [], _ => trivial
  | _ :: _, fill => ⟨fill.2.1.every, fill.2.2.every⟩

end

end Node

end SmallC
