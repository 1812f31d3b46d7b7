import SmallC.Proofs.Graph.Layout
import SmallC.Semantic.Check

/-!
# Parameters

Parameters are declared before anything else, so the parameter at a position is the symbol with that
number.  Declaring parameters succeeds exactly when their names are different and their offsets fit
into 32 bits.
-/

namespace SmallC

namespace Graph

/-! ## One parameter -/

/-- The graph with a parameter at a position. -/
@[simps]
def withParameter (name : String) (position : Nat) (graph : Graph) : Graph :=
  { graph.placed name (Frame.parameterOffset position) with
    nextOffset :=
      if position < Frame.registerParameters then graph.nextOffset - 4 else graph.nextOffset
    parameters := graph.parameters ++ [graph.symbols.nextKey] }

/-- A graph whose symbols are all parameters. -/
structure TakesParameters (graph : Graph) : Prop where
  kept : graph.Invariant
  parameters_only : graph.parameters.length = graph.symbols.size
  outermost : graph.scopes.enclosing = []

variable {graph next : Graph} {name : String} {slot : Slot}

theorem stackParameter_eq_ok_iff {position : Nat} (isOnStack : Frame.registerParameters ≤ position)
    (limit : position ≤ Frame.maxParameters) {offset : Int} :
    Frame.stackParameter (position - Frame.registerParameters) = .ok offset ↔
      position < Frame.maxParameters ∧ offset = Frame.parameterOffset position := by
  have offset_eq : Frame.parameterOffset position =
      Frame.firstStackParameter + 8 * (position - Frame.registerParameters : Nat) :=
    if_neg (Nat.not_lt.mpr isOnStack)
  have reduced : Int.bmod (position - Frame.registerParameters : Nat) 0x100000000 =
      (position - Frame.registerParameters : Nat) := by
    apply Int.bmod_eq_of_le
    · omega
    · unfold Frame.maxParameters at limit
      omega
  rw [← Frame.fits_parameterOffset_iff, offset_eq]
  simp only [Frame.stackParameter, reduced, bind_eq_ok_iff, checked_eq_ok_iff]
  constructor
  · rintro ⟨_, ⟨-, rfl⟩, fits, rfl⟩
    exact ⟨fits, rfl⟩
  · rintro ⟨fits, rfl⟩
    refine ⟨_, ⟨?_, rfl⟩, fits, rfl⟩
    rw [Frame.fits_iff] at fits ⊢
    unfold Frame.firstStackParameter at fits
    omega

/-- A parameter can be declared exactly when its name is free and its offset fits. -/
theorem declareParameter_eq_ok_iff (ready : graph.TakesParameters) :
    (graph.declareParameter name .int graph.symbols.size).accepted = .ok (slot, next) ↔
      (graph.scopes.declaresHere name = false ∧ graph.symbols.size < Frame.maxParameters) ∧
        slot = graph.symbols.nextKey ∧ next = graph.withParameter name graph.symbols.size := by
  obtain ⟨⟨-, laid, -⟩, parameters_only, outermost⟩ := ready
  have depth_eq : graph.scopes.depth = 1 := by
    simp [Scopes.depth, Scopes.all, outermost]
  have visible : graph.scopes.hidesParameter name = false := by
    simp [Scopes.hidesParameter, outermost]
  have limit := laid.parameters_fit
  have next_eq := laid.next_eq
  rw [parameters_only] at limit next_eq
  simp only [declareParameter, depth_eq, if_true, accepted_andThen_eq_ok_iff]
  by_cases inRegister : graph.symbols.size < Frame.registerParameters
  · have places_eq : Frame.placesBefore graph.symbols.size graph.symbols.size =
        graph.symbols.size := by
      unfold Frame.placesBefore
      omega
    have offset_eq : Frame.firstLocal - graph.symbols.size * (4 : Nat) = graph.nextOffset := by
      rw [next_eq, places_eq]
      omega
    have fits : Frame.fits (graph.nextOffset - 4) = true := by
      rw [Frame.fits_iff, ← offset_eq]
      unfold Frame.firstLocal
      unfold Frame.registerParameters at inRegister
      omega
    have room : graph.symbols.size < Frame.maxParameters := by
      unfold Frame.maxParameters
      unfold Frame.registerParameters at inRegister
      omega
    have placed_eq : graph.nextOffset = Frame.parameterOffset graph.symbols.size := by
      rw [Frame.parameterOffset, if_pos inRegister, ← offset_eq]
      omega
    simp only [inRegister, if_true, declareRegisterParameter, TypeName.size, offset_eq,
      declareVariable_eq_ok_iff, Except.ok.injEq]
    constructor
    · rintro ⟨_, ⟨can, rfl, rfl⟩, rfl⟩
      refine ⟨⟨can.free, room⟩, rfl, ?_⟩
      simp [withParameter, inRegister, declared, ← placed_eq]
    · rintro ⟨⟨free, -⟩, rfl, rfl⟩
      refine ⟨_, ⟨⟨free, visible, fits⟩, rfl, rfl⟩, ?_⟩
      simp [withParameter, inRegister, declared, ← placed_eq]
  · have onStack : Frame.registerParameters ≤ graph.symbols.size := Nat.not_lt.mp inRegister
    simp only [if_neg inRegister, Except.ok.injEq]
    rw [declareStackParameter]
    cases outcome : Frame.stackParameter (graph.symbols.size - Frame.registerParameters) with
    | error fault =>
      have tight : ¬graph.symbols.size < Frame.maxParameters := fun room => by
        rw [(stackParameter_eq_ok_iff onStack limit).mpr ⟨room, rfl⟩] at outcome
        cases outcome
      constructor
      · rintro ⟨_, accepted, -⟩
        cases accepted
      · rintro ⟨⟨-, room⟩, -⟩
        exact absurd room tight
    | ok offset =>
      obtain ⟨room, rfl⟩ := (stackParameter_eq_ok_iff onStack limit).mp outcome
      simp only [insertSymbolAt, insertSymbol_eq_ok_iff]
      constructor
      · rintro ⟨_, ⟨⟨free, -⟩, rfl, rfl⟩, rfl⟩
        refine ⟨⟨free, room⟩, rfl, ?_⟩
        simp [withParameter, inRegister]
      · rintro ⟨⟨free, -⟩, rfl, rfl⟩
        refine ⟨_, ⟨⟨free, visible⟩, rfl, rfl⟩, ?_⟩
        simp [withParameter, inRegister]

/-- A parameter leaves a graph whose symbols are all parameters. -/
theorem TakesParameters.withParameter (ready : graph.TakesParameters)
    (isVariable : isTemporary name = false) (room : graph.symbols.size < Frame.maxParameters) :
    (graph.withParameter name graph.symbols.size).TakesParameters := by
  obtain ⟨⟨formed, laid, named⟩, parameters_only, outermost⟩ := ready
  have known (number : Nat) (name_eq : name = temporaryName number) :
      number < graph.nextTemporary := by
    simp [name_eq] at isVariable
  have placedFormed := formed.placed name (Frame.parameterOffset graph.symbols.size)
  have placedNamed := named.placed formed laid (Nat.le_refl _) known
    (Frame.parameterOffset graph.symbols.size)
  have length_eq : (graph.parameters ++ [graph.symbols.nextKey]).length =
      graph.symbols.size + 1 := by
    simp [parameters_only]
  refine ⟨⟨{ placedFormed with parameters_known := ?_ }, ?_, { placedNamed with }⟩, ?_, outermost⟩
  · intro slot member
    rcases List.mem_append.mp member with old | isNew
    · exact placedFormed.parameters_known slot old
    · rw [List.mem_singleton.mp isNew]
      exact hasSlot_placed _ _ graph
  · have next_eq := laid.next_eq
    have next_fits := laid.next_fits
    have offset_eq := laid.offset_eq
    have keys_eq := laid.parameters_eq
    rw [parameters_only] at next_eq offset_eq keys_eq
    refine ⟨?keys, ?count, ?limit, ?offsets, ?next, ?fits⟩
    case keys =>
      rw [withParameter_parameters, length_eq, List.range_succ, List.map_append, ← keys_eq]
      rfl
    case count => simp [parameters_only]
    case limit =>
      rw [withParameter_parameters, length_eq]
      exact room
    case offsets =>
      intro number symbol found
      rw [withParameter_parameters, length_eq]
      simp only [withParameter_symbols, placed_symbols, Table.push, List.getElem?_append] at found
      split at found
      · rename_i old
        have oldNumber : number < graph.symbols.size := old
        rw [offset_eq number symbol found, Frame.slotOffset, Frame.slotOffset, if_pos oldNumber,
          if_pos (Nat.lt_succ_of_lt oldNumber)]
      · simp only [List.getElem?_singleton, Option.ite_none_right_eq_some,
          Option.some.injEq] at found
        obtain ⟨at_end, rfl⟩ := found
        have number_eq : number = graph.symbols.size := by
          unfold Table.size
          omega
        rw [number_eq, Frame.slotOffset, if_pos (Nat.lt_succ_self _)]
    case next =>
      rw [withParameter_nextOffset, withParameter_parameters, length_eq, withParameter_symbols,
        placed_symbols, Table.size_push, next_eq]
      unfold Frame.placesBefore
      split <;> omega
    case fits =>
      rw [Frame.fits_iff, next_eq] at next_fits
      rw [Frame.fits_iff, withParameter_nextOffset, next_eq]
      unfold Frame.placesBefore Frame.firstLocal Frame.registerParameters at *
      split <;> omega
  · rw [withParameter_parameters, length_eq, withParameter_symbols, placed_symbols, Table.size_push]

end Graph

/-! ## All parameters -/

namespace Lowering

open SmallC.Graph

/-- The scope of parameters from a position on. -/
def parameterScope (position : Nat) : List Parameter → Scope Slot
  | [] => []
  | first :: others =>
    parameterScope (position + 1) others ++ [(first.name.name, TableKey.ofIndex position)]

variable {parameters : List Parameter}

/-- No parameter is a temporary. -/
theorem named_parameterScope (position : Nat)
    (tree : ∀ parameter ∈ parameters, parameter.name.WellFormed) :
    Scope.named (parameterScope position parameters) = parameterScope position parameters := by
  induction parameters generalizing position with
  | nil => rfl
  | cons first others ih =>
    rw [List.forall_mem_cons] at tree
    have isVariable := isTemporary_of_isWord tree.1
    have others_eq := ih (position + 1) tree.2
    unfold Scope.named at others_eq ⊢
    rw [parameterScope, List.filter_append, others_eq]
    simp [isVariable]

/-- Values for parameters in order make a scope related to that of the parameters. -/
theorem related_parameterScope {α : Type} {R : α → Slot → Prop} {entries : List (String × α)}
    (position : Nat)
    (names : List.Forall₂ (fun entry parameter => entry.1 = parameter.name.name) entries parameters)
    (values : ∀ number entry, entries[number]? = some entry →
      R entry.2 (TableKey.ofIndex (position + number))) :
    Scope.Related R entries.reverse (parameterScope position parameters) := by
  induction names generalizing position with
  | nil => exact .nil
  | @cons entry parameter _ _ name_eq _ ih =>
    rw [List.reverse_cons, parameterScope]
    refine List.rel_append (ih (position + 1) fun number other found => ?_) ?_
    · rw [Nat.add_right_comm]
      exact values (number + 1) other found
    · exact .cons ⟨name_eq, values 0 entry rfl⟩ .nil

/-- What declaring parameters does to a graph. -/
structure TookParameters (parameters : List Parameter) (graph next : Graph) : Prop where
  ready : next.TakesParameters
  limit : graph.symbols.size + parameters.length ≤ Frame.maxParameters
  size_eq : next.symbols.size = graph.symbols.size + parameters.length
  innermost_eq : next.scopes.innermost =
    parameterScope graph.symbols.size parameters ++ graph.scopes.innermost
  name_eq : next.name = graph.name
  blocks_eq : next.blocks = graph.blocks
  order_eq : next.order = graph.order
  current_eq : next.current = graph.current

/-- Entries for the parameters of a function make a scope related to the scopes of its graph. -/
theorem TookParameters.related_single {α : Type} {R : α → Slot → Prop} {name : String}
    {taken : Graph} (took : TookParameters parameters (.new name) taken)
    (tree : ∀ parameter ∈ parameters, parameter.name.WellFormed) {entries : List (String × α)}
    (names : List.Forall₂ (fun entry parameter => entry.1 = parameter.name.name) entries parameters)
    (values : ∀ number entry, entries[number]? = some entry → R entry.2 (TableKey.ofIndex number)) :
    Scopes.Related R (.single entries.reverse) taken.scopes.named := by
  have innermost_eq : taken.scopes.innermost = parameterScope 0 parameters := by
    rw [took.innermost_eq]
    simp [Graph.new, Scopes.single, Table.empty, Table.size]
  constructor
  · show Scope.Related R _ (Scope.named taken.scopes.innermost)
    rw [innermost_eq, named_parameterScope 0 tree]
    refine related_parameterScope 0 names fun number entry found => ?_
    rw [Nat.zero_add]
    exact values number entry found
  · show List.Forall₂ _ [] (taken.scopes.enclosing.map Scope.named)
    rw [took.ready.outermost]
    exact .nil

theorem declareParameters_cons_eq_ok_iff {graph next : Graph} (ready : graph.TakesParameters)
    {first : Parameter} {others : List Parameter} :
    declareParameters graph.symbols.size (first :: others) graph = .ok next ↔
      (graph.scopes.declaresHere first.name.name = false ∧
          graph.symbols.size < Frame.maxParameters) ∧
        declareParameters (graph.symbols.size + 1) others
          (graph.withParameter first.name.name graph.symbols.size) = .ok next := by
  simp only [declareParameters, bind_eq_ok_iff, Prod.exists, declareParameter_eq_ok_iff ready]
  constructor
  · rintro ⟨_, _, ⟨can, rfl, rfl⟩, othersDeclared⟩
    exact ⟨can, othersDeclared⟩
  · rintro ⟨can, othersDeclared⟩
    exact ⟨_, _, ⟨can, rfl, rfl⟩, othersDeclared⟩

/-- Parameters that a graph takes one after the other. -/
inductive Takes : List Parameter → Graph → Graph → Prop
  | nil {graph : Graph} : graph.TakesParameters → Takes [] graph graph
  | cons {first : Parameter} {others : List Parameter} {graph next : Graph} :
      graph.TakesParameters → first.name.WellFormed →
        graph.scopes.declaresHere first.name.name = false →
          graph.symbols.size < Frame.maxParameters →
            Takes others (graph.withParameter first.name.name graph.symbols.size) next →
              Takes (first :: others) graph next

theorem takes_of_declareParameters (parameters : List Parameter) {graph next : Graph}
    (ready : graph.TakesParameters)
    (tree : ∀ parameter ∈ parameters, parameter.name.WellFormed)
    (declared : declareParameters graph.symbols.size parameters graph = .ok next) :
    Takes parameters graph next := by
  induction parameters generalizing graph with
  | nil =>
    cases declared
    exact .nil ready
  | cons first others ih =>
    rw [List.forall_mem_cons] at tree
    obtain ⟨⟨free, room⟩, othersDeclared⟩ := (declareParameters_cons_eq_ok_iff ready).mp declared
    exact .cons ready tree.1 free room
      (ih (ready.withParameter (isTemporary_of_isWord tree.1) room) tree.2
        (by simpa using othersDeclared))

theorem Takes.took {graph next : Graph} (takes : Takes parameters graph next) :
    TookParameters parameters graph next := by
  induction takes with
  | nil ready =>
    have limit := ready.kept.laid.parameters_fit
    rw [ready.parameters_only] at limit
    exact ⟨ready, limit, rfl, rfl, rfl, rfl, rfl, rfl⟩
  | @cons first others graph next _ _ _ _ _ ih =>
    have size_eq : (graph.withParameter first.name.name graph.symbols.size).symbols.size =
        graph.symbols.size + 1 := by
      simp
    obtain ⟨ready, limit, next_size_eq, innermost_eq, name_eq, blocks_eq, order_eq,
      current_eq⟩ := ih
    rw [size_eq] at limit next_size_eq innermost_eq
    refine ⟨ready, ?_, ?_, ?_, name_eq, blocks_eq, order_eq, current_eq⟩
    · rw [List.length_cons]
      omega
    · rw [List.length_cons]
      omega
    · simpa [parameterScope, Scopes.declare, Table.nextKey] using innermost_eq

/-- The names that were declared, with that of one more parameter. -/
theorem declaresHere_withParameter {graph : Graph} {seen : List String}
    (seen_eq : ∀ name, graph.scopes.declaresHere name = seen.contains name) (added name : String) :
    (graph.withParameter added graph.symbols.size).scopes.declaresHere name =
      (added :: seen).contains name := by
  rw [withParameter_scopes, placed_scopes, List.contains_cons, ← seen_eq]
  simp only [Scopes.declaresHere, Scope.declares, Scopes.declare, List.lookup_cons]
  cases name == added <;> rfl

/-- Parameters with different names can be declared as long as their offsets fit. -/
theorem exists_declareParameters (parameters : List Parameter) {graph : Graph} {seen : List String}
    (ready : graph.TakesParameters)
    (tree : ∀ parameter ∈ parameters, parameter.name.WellFormed)
    (seen_eq : ∀ name, graph.scopes.declaresHere name = seen.contains name)
    (different : Semantic.firstRepeated? seen (parameters.map (·.name)) = none)
    (limit : graph.symbols.size + parameters.length ≤ Frame.maxParameters) :
    ∃ next, declareParameters graph.symbols.size parameters graph = .ok next := by
  induction parameters generalizing graph seen with
  | nil => exact ⟨graph, rfl⟩
  | cons first others ih =>
    rw [List.forall_mem_cons] at tree
    rw [List.length_cons] at limit
    rw [List.map_cons, Semantic.firstRepeated?] at different
    split at different
    · cases different
    · rename_i isNew
      have room : graph.symbols.size < Frame.maxParameters := by omega
      have free : graph.scopes.declaresHere first.name.name = false := by
        rw [seen_eq]
        simpa using isNew
      have size_eq : (graph.withParameter first.name.name graph.symbols.size).symbols.size =
          graph.symbols.size + 1 := by
        simp
      obtain ⟨next, othersDeclared⟩ := ih
        (ready.withParameter (isTemporary_of_isWord tree.1) room) tree.2
        (declaresHere_withParameter seen_eq first.name.name) different (by rw [size_eq]; omega)
      rw [size_eq] at othersDeclared
      exact ⟨next, (declareParameters_cons_eq_ok_iff ready).mpr ⟨⟨free, room⟩, othersDeclared⟩⟩

/-! ## The first graph of a function -/

theorem takesParameters_new (name : String) : (Graph.new name).TakesParameters := by
  have get?_new {id : BlockId} {block : BasicBlock}
      (found : (Graph.new name).blocks.get? id = some block) : ∃ label, block = .new label := by
    simp only [Graph.new, Table.get?, List.getElem?_singleton, Option.ite_none_right_eq_some,
      Option.some.injEq] at found
    exact ⟨_, found.2.symm⟩
  refine ⟨⟨⟨?_, ?_, ?_, ?_, ?_, ?_, ?_⟩, ⟨?_, ?_, ?_, ?_, ?_, ?_⟩, ⟨?_, ?_⟩⟩, rfl, rfl⟩
  · simp [Graph.new]
  · simp [Graph.new]
  · simp [Graph.new, HasBlock, Table.size, TableKey.index, TableKey.number]
  · intro id block found
    obtain ⟨label, rfl⟩ := get?_new found
    exact BasicBlock.wellFormed_new _ _ label
  · intro id block found _
    exact get?_new found
  · simp [Graph.new, Scopes.all, Scopes.single]
  · simp [Graph.new]
  · rfl
  · simp [Graph.new]
  · simp [Graph.new]
  · simp [Graph.new, Table.empty]
  · rfl
  · simp [Graph.new, Frame.fits, Frame.firstLocal]
  · simp [Graph.new, Scopes.all, Scopes.single]
  · simp [Graph.new, Scopes.all, Scopes.single]

/-- The parameters of a function are taken by its new graph. -/
theorem takes_parameters {function : FunctionDef} {taken : Graph} (tree : function.WellFormed)
    (declared : declareParameters 0 function.parameters (.new function.name.name) = .ok taken) :
    Takes function.parameters (.new function.name.name) taken :=
  takes_of_declareParameters function.parameters (takesParameters_new _) tree.parameters declared

end Lowering

end SmallC
