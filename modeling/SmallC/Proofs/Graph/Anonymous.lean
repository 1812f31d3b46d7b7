import SmallC.Proofs.Lowering.Parameters

/-!
# Graphs without names

The code of a graph is the graph without the names of its symbols and without its scopes.  What is
done to a graph does the same to its code, whatever the names are, so graphs with the same code keep
the same code.
-/

namespace SmallC.Graph

/-- A symbol without its name. -/
def unnamed (symbol : GraphSymbol) : GraphSymbol :=
  { symbol with name := "" }

/-- The code of a graph. -/
@[simps]
def anonymous (graph : Graph) : Graph :=
  { graph with
    symbols := ⟨graph.symbols.entries.map unnamed⟩
    scopes := .single [] }

/-- Graphs with the same code. -/
def SameCode (first second : Graph) : Prop :=
  first.anonymous = second.anonymous

namespace SameCode

variable {first second : Graph}

section

variable (same : SameCode first second)
include same

/-- What is read off a graph without looking at names is read off its code. -/
theorem field_eq {α : Type} (field : Graph → α)
    (blind : ∀ graph, field graph.anonymous = field graph) : field first = field second := by
  rw [← blind first, ← blind second, same]

theorem newKey_eq (number : Nat) : first.newKey number = second.newKey number :=
  same.field_eq (fun graph => graph.newKey number) fun _ => rfl

theorem size_symbols_eq : first.symbols.size = second.symbols.size :=
  same.field_eq (fun graph => graph.symbols.size) fun _ => List.length_map _

theorem nextKey_eq : first.symbols.nextKey = second.symbols.nextKey :=
  congrArg TableKey.ofIndex same.size_symbols_eq

end

/-! ## Blocks -/

section

variable (same : SameCode first second)
include same

theorem extended (instruction : Instruction) :
    SameCode (first.extended instruction) (second.extended instruction) :=
  congrArg (Graph.extended instruction) same

theorem created (tag : String) : SameCode (first.created tag) (second.created tag) :=
  congrArg (Graph.created tag) same

theorem entered (change : BasicBlock → BasicBlock) (id : BlockId) :
    SameCode ((first.changed first.current change).entered id)
      ((second.changed second.current change).entered id) :=
  congrArg (fun graph : Graph => (graph.changed graph.current change).entered id) same

end

/-! ## Symbols and scopes -/

section

variable (same : SameCode first second)
include same

/-- A new symbol has the same place in both graphs, under whichever names. -/
theorem placed (name other : String) (offset : Int) :
    SameCode (first.placed name offset) (second.placed other offset) := by
  have entries_eq := congrArg (fun graph => graph.symbols.entries) same
  have symbols_eq : ((first.placed name offset).symbols.entries.map unnamed) =
      (second.placed other offset).symbols.entries.map unnamed := by
    simpa [Table.push, unnamed] using entries_eq
  have fields := congrArg (fun graph => { graph with
    symbols := ⟨(second.placed other offset).symbols.entries.map unnamed⟩ }) same
  unfold SameCode anonymous
  rw [symbols_eq]
  exact fields

theorem declared (name other : String) :
    SameCode (first.declared name) (second.declared other) := by
  have offset_eq : first.nextOffset = second.nextOffset := same.field_eq _ fun _ => rfl
  have placed := same.placed name other first.nextOffset
  unfold Graph.declared
  rw [← offset_eq]
  exact congrArg (fun graph => { graph with nextOffset := first.nextOffset - 4 }) placed

theorem withTemporary : SameCode first.withTemporary second.withTemporary := by
  have offset_eq : first.nextOffset = second.nextOffset := same.field_eq _ fun _ => rfl
  have number_eq : first.nextTemporary = second.nextTemporary := same.field_eq _ fun _ => rfl
  have placed := same.placed (temporaryName first.nextTemporary)
    (temporaryName first.nextTemporary) first.nextOffset
  unfold Graph.withTemporary
  rw [← offset_eq, ← number_eq]
  exact congrArg (fun graph => { graph with
    nextOffset := first.nextOffset - 4
    nextTemporary := first.nextTemporary + 1 }) placed

theorem withParameter (name other : String) (position : Nat) :
    SameCode (first.withParameter name position) (second.withParameter other position) := by
  have offset_eq : first.nextOffset = second.nextOffset := same.field_eq _ fun _ => rfl
  have parameters_eq : first.parameters = second.parameters := same.field_eq _ fun _ => rfl
  have placed := same.placed name other (Frame.parameterOffset position)
  unfold Graph.withParameter
  rw [← offset_eq, ← parameters_eq, ← same.nextKey_eq]
  exact congrArg (fun graph => { graph with
    nextOffset :=
      if position < Frame.registerParameters then first.nextOffset - 4 else first.nextOffset
    parameters := first.parameters ++ [first.symbols.nextKey] }) placed

end

end SameCode

end SmallC.Graph
