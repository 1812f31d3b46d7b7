import SmallC.Proofs.Lowering.Growth
import SmallC.Proofs.Semantics.Order
import SmallC.Proofs.Simulation.Basic

/-!
# Slots of variables and values

Every variable in scope has a slot of its own, and so has every value that is not the value of a
variable.  So what an expression stores changes only slots that are new and slots of variables that
the expression modifies, and the value of an expression stays where it is while an independent one is
evaluated.
-/

namespace SmallC

open Evaluation Execution Lowering

/-! ## Graphs with variables in scope -/

namespace Graph

/-- A graph in which the given variables are in scope. -/
structure Sees (graph : Graph) (slots : Scopes Slot) : Prop where
  kept : graph.Invariant
  named_eq : graph.scopes.named = slots

namespace Sees

variable {graph next : Graph} {slots : Scopes Slot}

section

variable (sees : graph.Sees slots)
include sees

theorem formed : graph.WellFormed :=
  sees.kept.formed

theorem hasBlock_current : graph.HasBlock graph.current :=
  sees.formed.hasBlock_current

theorem steps (steps : Steps graph next) (named_eq : next.scopes.named = graph.scopes.named) :
    next.Sees slots :=
  ⟨steps.invariant sees.kept, named_eq.trans sees.named_eq⟩

variable {slot : Slot}

theorem evaluated (evaluated : Evaluated graph slot next) : next.Sees slots :=
  sees.steps evaluated.steps evaluated.named_eq

theorem distinct : slots.Distinct := by
  rw [← sees.named_eq]
  exact Scopes.Distinct.named sees.kept.named.distinct

/-- Variables in scope have slots of the graph. -/
theorem hasSlot_of_mem {entry : String × Slot} (member : entry ∈ slots.all.flatten) :
    graph.HasSlot entry.2 := by
  rw [← sees.named_eq] at member
  obtain ⟨scope, inScopes, inScope⟩ :=
    List.mem_flatten.mp ((Scopes.flatten_all_named_sublist _).subset member)
  exact sees.formed.scopes_known scope inScopes entry inScope

theorem hasSlot_of_lookup? {name : String} (found : slots.lookup? name = some slot) :
    graph.HasSlot slot :=
  sees.hasSlot_of_mem (Scopes.mem_of_lookup? found)

/-- A name of the program stands for a variable. -/
theorem lookup?_eq {name : Ident} (word : name.WellFormed) :
    graph.scopes.lookup? name.name = slots.lookup? name.name := by
  rw [← sees.named_eq, Scopes.lookup?_named _ (isTemporary_of_isWord word)]

/-- The next symbol gets a slot that the graph does not have yet. -/
theorem not_hasSlot_nextKey : ¬graph.HasSlot graph.symbols.nextKey := by
  rw [HasSlot, sees.kept.laid.index_nextKey]
  exact Nat.lt_irrefl _

end

end Sees

end Graph

open SmallC.Graph

/-! ## What an expression leaves behind -/

/-- Slots of a graph that are not those of given variables keep what they hold. -/
def Keeps (slots : Scopes Slot) (graph : Graph) (names : List String) (store after : Store) : Prop :=
  ∀ slot, graph.HasSlot slot → (∀ name ∈ names, slots.lookup? name ≠ some slot) →
    after slot = store slot

/-- Slots after the code of an expression that modifies some variables. -/
structure Follows (slots : Scopes Slot) (graph : Graph) (names : List String) (store : Store)
    (state : State) (after : Store) : Prop where
  agrees : Agrees slots state.scopes after
  keeps : Keeps slots graph names store after

namespace Follows

variable {slots : Scopes Slot} {graph next : Graph} {names others : List String}
  {store middle after : Store} {state later : State}

theorem refl (agrees : Agrees slots state.scopes store) (names : List String) :
    Follows slots graph names store state store :=
  ⟨agrees, fun _ _ _ => rfl⟩

/-- One expression after another. -/
theorem trans (first : Follows slots graph names store state middle)
    (second : Follows slots next others middle later after) (steps : Steps graph next) :
    Follows slots graph (names ++ others) store later after := by
  refine ⟨second.agrees, fun slot known untouched => ?_⟩
  rw [List.forall_mem_append] at untouched
  rw [second.keeps slot (steps.hasSlot known) untouched.2, first.keeps slot known untouched.1]

section

variable (follows : Follows slots graph names store state after)
include follows

theorem mono (more : ∀ name ∈ names, name ∈ others) :
    Follows slots graph others store state after :=
  ⟨follows.agrees, fun slot known untouched =>
    follows.keeps slot known fun name member => untouched name (more name member)⟩

/-- Storing into a slot that the graph does not have. -/
theorem storeNew (sees : graph.Sees slots) {target : Slot} (isNew : ¬graph.HasSlot target)
    (value : Int32) :
    Follows slots graph names store state (Function.update after target value) := by
  have different (slot : Slot) (known : graph.HasSlot slot) : slot ≠ target := by
    rintro rfl
    exact isNew known
  refine ⟨follows.agrees.congr fun entry member => ?_, fun slot known untouched => ?_⟩
  · rw [Function.update_of_ne (different _ (sees.hasSlot_of_mem member))]
  · rw [Function.update_of_ne (different slot known), follows.keeps slot known untouched]

/-- Storing into the slot of a variable. -/
theorem storeNamed (sees : graph.Sees slots) {name : String} {target : Slot}
    (found : slots.lookup? name = some target) (modified : name ∈ names) (value : Int32) :
    ∃ scopes, state.write name value = .ok ⟨scopes, state.trace⟩ ∧
      Follows slots graph names store ⟨scopes, state.trace⟩ (Function.update after target value) := by
  obtain ⟨scopes, written, agrees⟩ := follows.agrees.write sees.distinct found value
  refine ⟨scopes, written, agrees, fun slot known untouched => ?_⟩
  have different : slot ≠ target := by
    rintro rfl
    exact untouched name modified found
  rw [Function.update_of_ne different, follows.keeps slot known untouched]

end

end Follows

/-! ## Slots of values -/

/-- A slot that holds the value of an expression: a new one, or that of a variable that the
expression reads or modifies. -/
def SlotOf (slots : Scopes Slot) (graph : Graph) (value : Expr) (slot : Slot) : Prop :=
  ¬graph.HasSlot slot ∨
    ∃ name, (name ∈ value.reads ∨ name ∈ value.modifies) ∧ slots.lookup? name = some slot

theorem slotOf_lowerExpr {defined : String → Bool} {slots : Scopes Slot} (value : Expr)
    {graph next : Graph} (sees : graph.Sees slots) (tree : value.WellFormed)
    (lowered : lowerExpr defined value graph = .ok (slot, next)) :
    SlotOf slots graph value slot := by
  cases value with
  | literal written =>
    obtain ⟨number, -, filled⟩ := lowerExpr_literal_eq_ok_iff.mp lowered
    obtain ⟨-, -, rfl, -⟩ := constant_eq_ok_iff.mp filled
    exact .inl sees.not_hasSlot_nextKey
  | identifier name =>
    obtain ⟨found, rfl⟩ := lowerExpr_identifier_eq_ok_iff.mp lowered
    rw [sees.lookup?_eq tree] at found
    exact .inr ⟨name.name, .inl (by simp [Expr.reads]), found⟩
  | group span inner =>
    rw [lowerExpr] at lowered
    have inside := slotOf_lowerExpr inner sees tree lowered
    rwa [SlotOf, Expr.reads, Expr.modifies]
  | call span callee arguments =>
    obtain ⟨-, rfl, -⟩ := lowerExpr_call_eq_ok_iff.mp lowered
    exact .inl sees.not_hasSlot_nextKey
  | binary span op opSpan left right =>
    rcases exists_operator_or_logical op with ⟨make, strict⟩ | ⟨op, rfl⟩
    · obtain ⟨-, rfl, -⟩ := (lowerExpr_operator_eq_ok_iff strict).mp lowered
      exact .inl sees.not_hasSlot_nextKey
    · obtain ⟨started, -, -, -, -, begun, -⟩ := lowerExpr_logical_eq_ok_iff.mp lowered
      obtain ⟨-, -, rfl, -⟩ := constant_eq_ok_iff.mp begun
      exact .inl sees.not_hasSlot_nextKey
  | unary span op opSpan operand =>
    obtain ⟨operandSlot, middle, operandLowered, -, -, rfl, -⟩ :=
      lowerExpr_unary_eq_ok_iff.mp lowered
    have evaluated := evaluated_lowerExpr operand sees.formed tree operandLowered
    exact .inl fun known => (sees.evaluated evaluated).not_hasSlot_nextKey
      (evaluated.steps.hasSlot known)
  | step span op fixity target =>
    obtain ⟨operand, -, filled⟩ := lowerExpr_step_eq_ok_iff.mp lowered
    obtain ⟨-, -, rfl, -⟩ := lowerStep_eq_ok_iff.mp filled
    exact .inl sees.not_hasSlot_nextKey
  | assign span target op value =>
    obtain ⟨valueSlot, middle, valueLowered, found, -, rfl⟩ := lowerExpr_assign_eq_ok_iff.mp lowered
    have evaluated := evaluated_lowerExpr value sees.formed tree.2 valueLowered
    rw [(sees.evaluated evaluated).lookup?_eq tree.1] at found
    exact .inr ⟨target.name, .inr (by simp [Expr.modifies]), found⟩

/-- An independent expression does not modify the slot of a value. -/
theorem SlotOf.untouched {slots : Scopes Slot} {graph : Graph} {value : Expr}
    (slotOf : SlotOf slots graph value slot) (sees : graph.Sees slots) {names : List String}
    (independent : ∀ name ∈ names, name ∉ value.reads ∧ name ∉ value.modifies) :
    ∀ name ∈ names, slots.lookup? name ≠ some slot := by
  intro name member found
  rcases slotOf with isNew | ⟨other, touched, foundOther⟩
  · exact isNew (sees.hasSlot_of_lookup? found)
  · rw [sees.distinct.name_eq foundOther found] at touched
    have apart := independent name member
    exact touched.elim apart.1 apart.2

end SmallC
