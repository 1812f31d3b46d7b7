import SmallC.Proofs.Lowering.StatementGrowth

/-!
# Graphs of functions

What the graph of a function is like once the whole function is lowered, and how lowering a function
fails.
-/

namespace SmallC

namespace Lowering

open SmallC.Graph

variable {defined : String → Bool} {function : FunctionDef} {graph : Graph}

theorem lowerFunction_eq_ok_iff :
    lowerFunction defined function = .ok graph ↔
      ∃ taken inside outer,
        declareParameters 0 function.parameters (.new function.name.name) = .ok taken ∧
          lowerStmts defined none function.body.statements (taken.inScopes taken.scopes.enter) =
              .ok inside ∧
            inside.scopes.leave? = some outer ∧ graph = inside.inScopes outer := by
  simp only [lowerFunction, bind_eq_ok_iff, enterScope_eq, leaveScope_eq_ok_iff, exists_and_left]

theorem Takes.moves {parameters : List Parameter} {graph next : Graph}
    (takes : Takes parameters graph next) : Moves defined graph next := by
  induction takes with
  | nil _ => exact .refl
  | cons _ word _ _ _ ih => exact .head (.withParameter word _) ih

/-- The graph of a function and the graph with only its parameters. -/
structure FunctionLowered (defined : String → Bool) (function : FunctionDef) (taken graph : Graph) :
    Prop where
  took : TookParameters function.parameters (.new function.name.name) taken
  taking : Moves defined (.new function.name.name) taken
  built : Built defined True (Stmt.footprintOfAll function.body.statements) [] taken graph

theorem functionLowered_of_parts {taken inside : Graph} {outer : Scopes Slot}
    (tree : function.WellFormed)
    (declared : declareParameters 0 function.parameters (.new function.name.name) = .ok taken)
    (lowered : lowerStmts defined none function.body.statements
      (taken.inScopes taken.scopes.enter) = .ok inside)
    (left : inside.scopes.leave? = some outer) :
    FunctionLowered defined function taken (inside.inScopes outer) := by
  have takes := takes_parameters tree declared
  have took := takes.took
  have known : (taken.inScopes taken.scopes.enter).HasBlock taken.current :=
    took.ready.kept.formed.hasBlock_current
  have body := (built_lowerStmts function.body.statements known lowered).settled
    ⟨tree.body, LoopTargets.known_none _⟩
  obtain rfl : taken.scopes = outer :=
    Option.some.inj (body.addition.scopes.leave?_eq.symm.trans left)
  exact ⟨took, takes.moves, body.enclosed⟩

theorem functionLowered_of_lowerFunction (tree : function.WellFormed)
    (lowered : lowerFunction defined function = .ok graph) :
    ∃ taken, FunctionLowered defined function taken graph := by
  obtain ⟨taken, inside, outer, declared, insideLowered, left, rfl⟩ :=
    lowerFunction_eq_ok_iff.mp lowered
  exact ⟨taken, functionLowered_of_parts tree declared insideLowered left⟩

namespace FunctionLowered

variable {taken : Graph} (lowered : FunctionLowered defined function taken graph)

include lowered

theorem steps : Steps taken graph :=
  lowered.built.steps lowered.took.ready.kept.formed trivial

/-- The whole graph of a function is built from one empty block. -/
theorem moves : Moves defined (.new function.name.name) graph :=
  lowered.taking.trans (lowered.built.moves lowered.took.ready.kept.formed trivial)

theorem kept : graph.Invariant :=
  lowered.steps.invariant lowered.took.ready.kept

theorem name_eq : graph.name = function.name.name :=
  lowered.steps.header_eq.1.trans lowered.took.name_eq

theorem parameters_length : graph.parameters.length = function.parameters.length := by
  rw [lowered.steps.header_eq.2, lowered.took.ready.parameters_only, lowered.took.size_eq]
  simp [Graph.new, Table.empty, Table.size]

/-- A function takes exactly the symbols and blocks of its footprint. -/
theorem sizes_eq :
    graph.symbols.size = function.footprint.symbols ∧
      graph.blocks.size = function.footprint.blocks := by
  have symbols_eq := lowered.built.symbols_eq
  have blocks_eq := lowered.built.blocks_eq
  rw [lowered.took.size_eq] at symbols_eq
  rw [lowered.took.blocks_eq] at blocks_eq
  simp only [Graph.new, Table.empty, Table.size, List.length_nil, List.length_singleton,
    Nat.zero_add] at symbols_eq blocks_eq
  exact ⟨symbols_eq, blocks_eq⟩

/-- The last block of a function has no exits, so it returns. -/
theorem openEnded : graph.OpenEnded :=
  (lowered.moves.linked (linked_new _)).openEnded

end FunctionLowered

/-! ## Functions that cannot be lowered -/

end Lowering

/-- An internal error, or a full frame, and the latter only if a limit is reached. -/
def Fault.Tolerated (limit : Prop) (fault : Fault) : Prop :=
  fault.Internal ∨ fault = .frameOverflow ∧ limit

theorem Fault.Tolerated.mono {limit weaker : Prop} {fault : Fault} (tolerated : fault.Tolerated limit)
    (implies : limit → weaker) : fault.Tolerated weaker :=
  tolerated.imp_right (And.imp_right implies)

theorem Fault.tolerated_of_isInternal {limit : Prop} (fault : Fault)
    (marked : fault.isInternal = true) : fault.Tolerated limit :=
  .inl (internal_of_isInternal marked)

namespace Lowering

open SmallC.Graph

variable {defined : String → Bool} {function : FunctionDef} {graph : Graph} {limit : Prop}

theorem tolerated_stackParameter {position : Nat} {fault : Fault}
    (isOnStack : Frame.registerParameters ≤ position) (few : position ≤ Frame.maxParameters)
    (full : position = Frame.maxParameters → limit)
    (failed : Frame.stackParameter (position - Frame.registerParameters) = .error fault) :
    fault.Tolerated limit := by
  rcases Nat.lt_or_eq_of_le few with room | last
  · rw [(stackParameter_eq_ok_iff isOnStack few).mpr ⟨room, rfl⟩] at failed
    cases failed
  · have reached (offset : Int) :
        Outcome (Fault.Tolerated limit) (fun _ => True) (Frame.checked offset) :=
      outcome_checked fun _ => .inr ⟨rfl, full last⟩
    exact ((reached _).bind fun _ _ => reached _).of_eq_error failed

theorem outcome_declareParameter {name : String} (ready : graph.TakesParameters)
    (full : graph.symbols.size = Frame.maxParameters → limit) :
    Outcome (Fault.Tolerated limit) (fun _ => True)
      (graph.declareParameter name .int graph.symbols.size).accepted := by
  have few := ready.kept.laid.parameters_fit
  rw [ready.parameters_only] at few
  unfold declareParameter
  split
  · refine outcome_accepted_andThen ?_ fun _ => trivial
    split
    · rename_i inRegister
      simp only [declareRegisterParameter, TypeName.size]
      split
      · have room : graph.symbols.size + 1 < 2 ^ 29 := by
          unfold Frame.registerParameters at inRegister
          omega
        have fits := ready.kept.fits room
        exact outcome_declareVariable (fun _ => Fault.tolerated_of_isInternal _ rfl)
          (fun _ => Fault.tolerated_of_isInternal _ rfl) fun tight => by simp [fits] at tight
      · exact Fault.tolerated_of_isInternal _ rfl
    · rename_i notInRegister
      have isOnStack : Frame.registerParameters ≤ graph.symbols.size := Nat.not_lt.mp notInRegister
      unfold declareStackParameter
      cases outcome : Frame.stackParameter (graph.symbols.size - Frame.registerParameters) with
      | error fault => exact tolerated_stackParameter isOnStack few full outcome
      | ok offset =>
        exact outcome_insertSymbol (fun _ => Fault.tolerated_of_isInternal _ rfl)
          (fun _ => Fault.tolerated_of_isInternal _ rfl) offset
  · exact Fault.tolerated_of_isInternal _ rfl

theorem outcome_declareParameters (parameters : List Parameter) {graph : Graph}
    (ready : graph.TakesParameters)
    (tree : ∀ parameter ∈ parameters, parameter.name.WellFormed)
    (full : Frame.maxParameters < graph.symbols.size + parameters.length → limit) :
    Outcome (Fault.Tolerated limit) (fun _ => True)
      (declareParameters graph.symbols.size parameters graph) := by
  induction parameters generalizing graph with
  | nil => trivial
  | cons first others ih =>
    rw [List.forall_mem_cons] at tree
    rw [List.length_cons] at full
    rw [declareParameters]
    refine (outcome_declareParameter ready fun reached => full (by omega)).eq_ok.bind ?_
    rintro ⟨slot, next⟩ declared
    obtain ⟨⟨-, room⟩, rfl, rfl⟩ := (declareParameter_eq_ok_iff ready).mp declared
    have size_eq : (graph.withParameter first.name.name graph.symbols.size).symbols.size =
        graph.symbols.size + 1 := by
      simp
    have others := ih (ready.withParameter (isTemporary_of_isWord tree.1) room) tree.2
      (by rw [size_eq]; exact fun many => full (by omega))
    rwa [size_eq] at others

/-- A function that is too large for its frame: it has so many symbols, or so many parameters, that
their offsets do not fit into 32 bits. -/
def TooLarge (function : FunctionDef) : Prop :=
  2 ^ 29 ≤ function.footprint.symbols ∨ Frame.maxParameters < function.parameters.length

/-- The body of a function is lowered in the graph with its parameters. -/
theorem outcome_lowerBody (defined : String → Bool) {fails : Fault → Prop} {taken : Graph}
    (took : TookParameters function.parameters (.new function.name.name) taken)
    (tree : function.WellFormed)
    (scoping : ∀ fault, fault.isScoping = true → fails fault)
    (frame : (∀ fault, fault.isInternal = true → fails fault) ∧ fails .frameOverflow ∨
      function.footprint.symbols < 2 ^ 29)
    (blocks : (∀ fault, fault.isInternal = true → fails fault) ∨
      function.footprint.blocks < 2 ^ 32) :
    Outcome fails
      (Built defined (Stmt.AllWellFormed function.body.statements ∧ LoopTargets.Known none taken)
        (Stmt.footprintOfAll function.body.statements)
        (function.body.statements.flatMap Stmt.declaredNames) (taken.inScopes taken.scopes.enter))
      (lowerStmts defined none function.body.statements (taken.inScopes taken.scopes.enter)) := by
  have kept := took.ready.kept
  have symbols_eq : taken.symbols.size + (Stmt.footprintOfAll function.body.statements).symbols =
      function.footprint.symbols := by
    rw [took.size_eq]
    simp [FunctionDef.footprint, Graph.new, Table.empty, Table.size]
  have blocks_eq : taken.blocks.size + (Stmt.footprintOfAll function.body.statements).blocks =
      function.footprint.blocks := by
    rw [took.blocks_eq]
    simp [FunctionDef.footprint, Graph.new, Table.size]
  have ready : taken.Ready fails
      (Stmt.AllWellFormed function.body.statements ∧ LoopTargets.Known none taken)
      (Stmt.footprintOfAll function.body.statements) :=
    ⟨kept.formed.hasBlock_current, scoping, .inr ⟨⟨tree.body, LoopTargets.known_none _⟩,
      kept.formed, frame.imp_right fun room => ⟨kept, symbols_eq ▸ room⟩,
      blocks.imp_right fun room => blocks_eq ▸ room⟩⟩
  exact outcome_lowerStmts function.body.statements ready.opened

theorem outcome_lowerFunction (tree : function.WellFormed) :
    Outcome (Fault.Tolerated (TooLarge function)) (fun _ => True)
      (lowerFunction defined function) := by
  have start := takesParameters_new function.name.name
  have empty : (Graph.new function.name.name).symbols.size = 0 := rfl
  refine (outcome_declareParameters function.parameters start tree.parameters fun many =>
    .inr (by rwa [empty, Nat.zero_add] at many)).eq_ok.bind fun taken declared => ?_
  have took := (takes_parameters tree declared).took
  refine (outcome_lowerBody defined took tree ?scoping ?frame
    (.inl Fault.tolerated_of_isInternal)).bind fun inside built => ?_
  case scoping =>
    exact fun fault scoping =>
      Fault.tolerated_of_isInternal fault (Fault.isInternal_of_isScoping scoping)
  case frame =>
    by_cases large : TooLarge function
    · exact .inl ⟨Fault.tolerated_of_isInternal, .inr ⟨rfl, large⟩⟩
    · exact .inr (Nat.not_le.mp (not_or.mp large).1)
  exact built.outcome_leaveScope.mono fun _ _ => trivial

/-- Lowering fails with an internal error, or because a function is too large. -/
theorem fails_lowerFunctions {functions : List FunctionDef}
    (tree : ∀ function ∈ functions, function.WellFormed) (fault : Fault)
    (failed : lowerFunctions defined functions = .error fault) :
    fault.Tolerated (∃ function ∈ functions, TooLarge function) := by
  induction functions with
  | nil => cases failed
  | cons first others ih =>
    rw [List.forall_mem_cons] at tree
    rw [lowerFunctions] at failed
    cases firstLowered : lowerFunction defined first with
    | error other =>
      rw [firstLowered] at failed
      cases failed
      exact ((outcome_lowerFunction tree.1).of_eq_error firstLowered).mono fun large =>
        ⟨first, List.mem_cons_self, large⟩
    | ok graph =>
      cases othersLowered : lowerFunctions defined others with
      | error other =>
        rw [firstLowered, othersLowered] at failed
        cases failed
        refine (ih tree.2 othersLowered).mono ?_
        rintro ⟨function, member, large⟩
        exact ⟨function, List.mem_cons_of_mem _ member, large⟩
      | ok graphs =>
        rw [firstLowered, othersLowered] at failed
        cases failed

end Lowering

end SmallC
