import SmallC.Proofs.Lowering.Frames

/-!
# Graphs that are edited freely

Lowering declares the parameters of a function in order, before anything else.  Here a graph is
edited by any operations in any order.  The frame then depends on the positions at which parameters
are declared, and on nothing else: symbols below the frame base never meet, but nothing keeps the
parameters on the stack in order.  A finished run of edits leaves an intact frame exactly when its
parameters were declared at the positions `0, 1, 2, …`.
-/

namespace SmallC

/-! ## Edits -/

/-- One operation on the graph of a function. -/
inductive Edit where
  | createBlock (tag : String)
  | appendBlock (id : BlockId)
  /-- Lets new instructions go to a block. -/
  | selectBlock (id : BlockId)
  | appendInstruction (id : BlockId) (operation : Operation) (operands : List Operand)
  /-- Adds an operation to the current block. -/
  | emit (operation : Operation) (operands : List Operand)
  | setJump (id target : BlockId)
  | setBranch (id : BlockId) (test : Slot) (onTrue onFalse : BlockId)
  | enterScope
  | leaveScope
  | declareVariable (name : String) (type : TypeName)
  | declareParameter (name : String) (type : TypeName) (position : Nat)
  | newTemporary (type : TypeName)

namespace Edit

/-- The graph after an edit. -/
def apply (graph : Graph) : Edit → Except Fault Graph
  | createBlock tag => .ok (graph.createBlock tag).2
  | appendBlock id => graph.appendBlock id
  | selectBlock id => .ok { graph with current := id }
  | appendInstruction id operation operands => graph.appendInstruction id operation operands
  | emit operation operands => graph.appendInstruction graph.current operation operands
  | setJump id target => graph.setJump id target
  | setBranch id test onTrue onFalse => graph.setBranch id test onTrue onFalse
  | enterScope => .ok graph.enterScope
  | leaveScope => graph.leaveScope
  | declareVariable name type => (graph.declareVariable name type).accepted.map Prod.snd
  | declareParameter name type position =>
    (graph.declareParameter name type position).accepted.map Prod.snd
  | newTemporary type => (graph.newTemporary type).accepted.map Prod.snd

/-- The graph of a function after edits, if none of them fails. -/
def applyAll (name : String) (edits : List Edit) : Except Fault Graph :=
  edits.foldlM apply (Graph.new name)

/-- The position of the parameter that an edit declares. -/
def position? : Edit → Option Nat
  | declareParameter _ _ position => some position
  | _ => none

/-- The positions at which edits declare parameters. -/
def positions (edits : List Edit) : List Nat :=
  edits.filterMap position?

/-- Whether parameters are declared at the positions `0, 1, 2, …`. -/
def InOrder (edits : List Edit) : Prop :=
  positions edits = List.range (positions edits).length

instance (edits : List Edit) : Decidable (InOrder edits) :=
  inferInstanceAs (Decidable (_ = _))

end Edit

/-- A frame in which no two symbols share an offset and every parameter is where its place in the
list of parameters says. -/
structure Graph.FrameIntact (graph : Graph) : Prop where
  offsets_distinct : (graph.symbols.entries.map (·.frameOffset)).Nodup
  parameter_offset : ∀ (number : Nat) slot, graph.parameters[number]? = some slot →
    ∃ symbol, graph.symbols.get? slot = some symbol ∧
      symbol.frameOffset = Frame.parameterOffset number

namespace Frame

/-! ## Offsets of declared parameters -/

/-- The offset that the parameter declared at a position gets.  The number of a parameter on the
stack is kept to 32 bits. -/
def declaredOffset (position : Nat) : Int :=
  if position < registerParameters then firstLocal - 4 * position
  else firstStackParameter + 8 * Int.bmod (position - registerParameters : Nat) 0x100000000

theorem declaredOffset_of_lt {position : Nat} (small : position < 2 ^ 31) :
    declaredOffset position = parameterOffset position := by
  have reduced : Int.bmod (position - registerParameters : Nat) 0x100000000 =
      (position - registerParameters : Nat) := by
    apply Int.bmod_eq_of_le <;> omega
  rw [declaredOffset, parameterOffset, reduced]

theorem parameterOffset_injective : Function.Injective parameterOffset := by
  intro first second same
  unfold parameterOffset firstLocal firstStackParameter registerParameters at same
  split_ifs at same <;> omega

/-- Among positions of 32 bits, only the right one gives a parameter its offset. -/
theorem eq_of_declaredOffset_eq {position number : Nat} (small : position < 2 ^ 32)
    (same : declaredOffset position = parameterOffset number) : position = number := by
  by_cases half : position < 2 ^ 31
  · exact parameterOffset_injective ((declaredOffset_of_lt half).symm.trans same)
  · unfold declaredOffset parameterOffset firstLocal firstStackParameter registerParameters at same
    rw [if_neg (by omega), Int.bmod_def] at same
    -- what wraps around lands below all parameters in registers
    split_ifs at same <;> omega

variable {offset : Int}

/-- The offset of a parameter on the stack, if it has one, is the one of its position. -/
theorem eq_of_stackParameter_eq_ok {position : Nat} (isOnStack : registerParameters ≤ position)
    (outcome : stackParameter (position - registerParameters) = .ok offset) :
    offset = declaredOffset position ∧ fits offset = true := by
  simp only [stackParameter, bind_eq_ok_iff, Graph.checked_eq_ok_iff] at outcome
  obtain ⟨distance, ⟨-, distance_eq⟩, fits, offset_eq⟩ := outcome
  refine ⟨?_, offset_eq ▸ fits⟩
  rw [declaredOffset, if_neg (Nat.not_lt.mpr isOnStack), offset_eq, distance_eq]

end Frame

/-! ## The part of a graph that is its frame -/

/-- What a graph says about its frame: the offsets of its symbols, the slots of its parameters, and
the offset of the next place. -/
structure FrameState where
  offsets : List Int
  parameters : List Slot
  next : Int

/-- The frame of a graph. -/
def Graph.frame (graph : Graph) : FrameState :=
  ⟨graph.symbols.entries.map (·.frameOffset), graph.parameters, graph.nextOffset⟩

namespace FrameState

/-- The frame with a symbol at the next place. -/
def taken (frame : FrameState) : FrameState :=
  { frame with offsets := frame.offsets ++ [frame.next], next := frame.next - 4 }

/-- The frame with a symbol at an offset. -/
def placed (offset : Int) (frame : FrameState) : FrameState :=
  { frame with offsets := frame.offsets ++ [offset] }

/-- The slot that the next symbol gets. -/
def nextSlot (frame : FrameState) : Slot :=
  TableKey.ofIndex frame.offsets.length

/-- The frame with one more parameter. -/
def listed (slot : Slot) (frame : FrameState) : FrameState :=
  { frame with parameters := frame.parameters ++ [slot] }

/-- What one edit does to a frame, with the position of the parameter that it declares. -/
inductive Step (frame : FrameState) : Option Nat → FrameState → Prop
  | same : Step frame none frame
  | taken (fits : Frame.fits (frame.next - 4) = true) : Step frame none frame.taken
  /-- A parameter in a register takes the next place, which has to be its own. -/
  | inRegister {position : Nat} (isInRegister : position < Frame.registerParameters)
      (next_eq : frame.next = Frame.declaredOffset position)
      (fits : Frame.fits (frame.next - 4) = true) :
      Step frame (some position) (frame.taken.listed frame.nextSlot)
  /-- A parameter on the stack gets its offset whatever the frame holds. -/
  | onStack {position : Nat} (isOnStack : Frame.registerParameters ≤ position)
      (fits : Frame.fits (Frame.declaredOffset position) = true) :
      Step frame (some position)
        ((frame.placed (Frame.declaredOffset position)).listed frame.nextSlot)

end FrameState

namespace Graph

variable {graph next : Graph} {name : String} {type : TypeName} {position : Nat} {slot : Slot}

theorem frame_placed (name : String) (offset : Int) (graph : Graph) :
    (graph.placed name offset).frame = graph.frame.placed offset := by
  simp [frame, FrameState.placed, Table.push]

theorem frame_declared (name : String) (graph : Graph) :
    (graph.declared name).frame = graph.frame.taken := by
  simp [frame, FrameState.taken, Table.push]

theorem frame_listed (slot : Slot) (graph : Graph) :
    ({ graph with parameters := graph.parameters ++ [slot] } : Graph).frame =
      graph.frame.listed slot :=
  rfl

theorem nextSlot_frame (graph : Graph) : graph.frame.nextSlot = graph.symbols.nextKey := by
  simp [frame, FrameState.nextSlot, Table.nextKey, Table.size]

theorem frame_of_appendInstruction {id : BlockId} {operation : Operation}
    {operands : List Operand} (added : graph.appendInstruction id operation operands = .ok next) :
    graph.frame = next.frame := by
  simp only [appendInstruction, bind_eq_ok_iff] at added
  obtain ⟨_, -, _, -, changed⟩ := added
  obtain ⟨-, rfl⟩ := modifyBlock_eq_ok_iff.mp changed
  rfl

theorem isInt_of_insertSymbol {result : Slot × Graph}
    (accepted : (graph.insertSymbol name type offset).accepted = .ok result) : type = .int := by
  cases type with
  | int => rfl
  | void => simp [insertSymbol, Declaration.refused, Declaration.accepted] at accepted

/-- A variable takes the next place. -/
theorem frame_of_declareVariable
    (accepted : (graph.declareVariable name type).accepted = .ok (slot, next)) :
    Frame.fits (graph.nextOffset - 4) = true ∧ slot = graph.frame.nextSlot ∧
      next.frame = graph.frame.taken := by
  obtain ⟨_, inserted, -⟩ := accepted_andThen_eq_ok_iff.mp accepted
  obtain rfl := isInt_of_insertSymbol inserted
  obtain ⟨can, rfl, rfl⟩ := declareVariable_eq_ok_iff.mp accepted
  exact ⟨can.fits, (nextSlot_frame graph).symm, frame_declared name graph⟩

/-- A symbol is only added at an offset that exists. -/
theorem insertSymbolAt_eq_ok_iff {offset : Except Fault Int} {result : Slot × Graph} :
    (graph.insertSymbolAt offset name type).accepted = .ok result ↔
      ∃ value, offset = .ok value ∧ (graph.insertSymbol name type value).accepted = .ok result := by
  cases offset <;> simp [insertSymbolAt, Declaration.refused, Declaration.accepted]

/-- A parameter in a register takes the next place, and only if that is its own. -/
theorem declareRegisterParameter_eq_ok
    (accepted : (graph.declareRegisterParameter name type position).accepted = .ok (slot, next)) :
    Frame.firstLocal - 4 * position = graph.nextOffset ∧
      (graph.declareVariable name type).accepted = .ok (slot, next) := by
  cases type with
  | void => simp [declareRegisterParameter, TypeName.size, Declaration.refused,
      Declaration.accepted] at accepted
  | int =>
    simp only [declareRegisterParameter, TypeName.size] at accepted
    split at accepted
    case isFalse => simp [Declaration.refused, Declaration.accepted] at accepted
    case isTrue offset_eq =>
      refine ⟨?_, accepted⟩
      rw [← offset_eq, mul_comm]
      rfl

/-- A parameter takes its own place or gets its offset on the stack. -/
theorem step_of_declareParameter
    (accepted : (graph.declareParameter name type position).accepted = .ok (slot, next)) :
    graph.frame.Step (some position) next.frame := by
  unfold declareParameter at accepted
  split at accepted
  case isFalse => simp [Declaration.refused, Declaration.accepted] at accepted
  case isTrue =>
    obtain ⟨middle, declared, listed⟩ := accepted_andThen_eq_ok_iff.mp accepted
    obtain rfl := Except.ok.inj listed
    split at declared
    case isTrue isInRegister =>
      obtain ⟨offset_eq, declared⟩ := declareRegisterParameter_eq_ok declared
      obtain ⟨fits, rfl, frame_eq⟩ := frame_of_declareVariable declared
      rw [frame_listed, frame_eq]
      refine .inRegister isInRegister ?_ fits
      rw [Frame.declaredOffset, if_pos isInRegister, offset_eq]
      rfl
    case isFalse notInRegister =>
      have isOnStack := Nat.not_lt.mp notInRegister
      obtain ⟨offset, outcome, inserted⟩ := insertSymbolAt_eq_ok_iff.mp declared
      obtain ⟨offset_eq, fits⟩ := Frame.eq_of_stackParameter_eq_ok isOnStack outcome
      obtain rfl := isInt_of_insertSymbol inserted
      obtain ⟨-, rfl, rfl⟩ := insertSymbol_eq_ok_iff.mp inserted
      rw [frame_listed, frame_placed, offset_eq, ← nextSlot_frame]
      exact .onStack isOnStack (offset_eq ▸ fits)

end Graph

/-- Every edit that succeeds is a step of the frame. -/
theorem Edit.step_of_apply {graph next : Graph} {edit : Edit}
    (applied : edit.apply graph = .ok next) : graph.frame.Step edit.position? next.frame := by
  have declared {declaration : Graph.Declaration}
      (accepted : declaration.accepted.map Prod.snd = .ok next) :
      ∃ slot, declaration.accepted = .ok (slot, next) := by
    cases outcome : declaration.accepted with
    | error fault => simp [outcome, Except.map] at accepted
    | ok result =>
      rw [outcome] at accepted
      exact ⟨result.1, congrArg _ (Prod.ext rfl (Except.ok.inj accepted))⟩
  cases edit with
  | createBlock tag =>
    obtain rfl := Except.ok.inj applied
    exact .same
  | appendBlock id =>
    simp only [apply, Graph.appendBlock] at applied
    split at applied
    case isTrue => simp at applied
    case isFalse =>
      obtain rfl := Except.ok.inj applied
      exact .same
  | selectBlock id =>
    obtain rfl := Except.ok.inj applied
    exact .same
  | appendInstruction id operation operands | emit operation operands =>
    rw [← Graph.frame_of_appendInstruction applied]
    exact .same
  | setJump id target | setBranch id test onTrue onFalse =>
    obtain ⟨-, rfl⟩ := Graph.modifyBlock_eq_ok_iff.mp applied
    exact .same
  | enterScope =>
    obtain rfl := Except.ok.inj applied
    exact .same
  | leaveScope =>
    obtain ⟨outer, -, rfl⟩ := Graph.leaveScope_eq_ok_iff.mp applied
    exact .same
  | declareVariable name type =>
    obtain ⟨slot, accepted⟩ := declared applied
    obtain ⟨fits, -, frame_eq⟩ := Graph.frame_of_declareVariable accepted
    rw [frame_eq]
    exact .taken fits
  | declareParameter name type position =>
    obtain ⟨slot, accepted⟩ := declared applied
    exact Graph.step_of_declareParameter accepted
  | newTemporary type =>
    obtain ⟨slot, accepted⟩ := declared applied
    obtain ⟨fits, -, frame_eq⟩ := Graph.frame_of_declareVariable accepted
    rw [frame_eq]
    exact .taken fits

/-! ## What a frame holds -/

namespace FrameState

/-- A parameter that was declared at a position: its slot is the key of a symbol at the offset of
the position. -/
def DeclaredAt (frame : FrameState) (slot : Slot) (position : Nat) : Prop :=
  ∃ number, slot = TableKey.ofIndex number ∧
    frame.offsets[number]? = some (Frame.declaredOffset position)

/-- The contents of a frame in which a number of places are taken and parameters are declared at
positions. -/
structure Holds (places : Nat) (positions : List Nat) (frame : FrameState) : Prop where
  next_eq : frame.next = Frame.placeOffset places
  next_fits : Frame.fits frame.next = true
  stack_fits : ∀ position ∈ positions, Frame.registerParameters ≤ position →
    Frame.fits (Frame.declaredOffset position) = true
  offsets_perm : frame.offsets.Perm
    ((List.range places).map Frame.placeOffset ++
      (positions.filter (Frame.registerParameters ≤ ·)).map Frame.declaredOffset)
  parameters_declared : List.Forall₂ frame.DeclaredAt frame.parameters positions

variable {frame next : FrameState} {places : Nat} {positions : List Nat} {position : Nat}

theorem DeclaredAt.append {slot : Slot} (declared : frame.DeclaredAt slot position)
    {more : FrameState} (more_eq : more.offsets = frame.offsets ++ [offset]) :
    more.DeclaredAt slot position := by
  obtain ⟨number, slot_eq, found⟩ := declared
  refine ⟨number, slot_eq, ?_⟩
  rw [more_eq, List.getElem?_append_left (List.getElem?_eq_some_iff.mp found).1, found]

/-- The symbol that is added at the offset of a position has the next slot. -/
theorem declaredAt_nextSlot {more : FrameState}
    (more_eq : more.offsets = frame.offsets ++ [Frame.declaredOffset position]) :
    more.DeclaredAt frame.nextSlot position :=
  ⟨frame.offsets.length, rfl, by simp [more_eq]⟩

section

variable (holds : frame.Holds places positions)
include holds

theorem Holds.taken (fits : Frame.fits (frame.next - 4) = true) :
    frame.taken.Holds (places + 1) positions where
  next_eq := by
    rw [FrameState.taken, holds.next_eq, Frame.placeOffset, Frame.placeOffset]
    push_cast
    ring
  next_fits := fits
  stack_fits := holds.stack_fits
  offsets_perm := by
    rw [List.range_succ, List.map_append, List.map_singleton, ← holds.next_eq, List.append_assoc]
    refine (holds.offsets_perm.append_right _).trans ?_
    rw [List.append_assoc]
    exact List.perm_append_comm.append_left _
  parameters_declared := holds.parameters_declared.imp fun _ _ declared => declared.append rfl

theorem Holds.inRegister (isInRegister : position < Frame.registerParameters) {slot : Slot}
    (declared : frame.DeclaredAt slot position) :
    (frame.listed slot).Holds places (positions ++ [position]) where
  next_eq := holds.next_eq
  next_fits := holds.next_fits
  stack_fits := by
    intro other member isOnStack
    rcases List.mem_append.mp member with old | isNew
    · exact holds.stack_fits other old isOnStack
    · rw [List.mem_singleton.mp isNew] at isOnStack
      exact absurd isInRegister (Nat.not_lt.mpr isOnStack)
  offsets_perm := by
    rw [List.filter_append, List.filter_singleton, decide_eq_false (Nat.not_le.mpr isInRegister)]
    simpa [listed] using holds.offsets_perm
  parameters_declared := List.rel_append holds.parameters_declared (.cons declared .nil)

theorem Holds.onStack (isOnStack : Frame.registerParameters ≤ position)
    (fits : Frame.fits (Frame.declaredOffset position) = true) :
    ((frame.placed (Frame.declaredOffset position)).listed frame.nextSlot).Holds places
      (positions ++ [position]) where
  next_eq := holds.next_eq
  next_fits := holds.next_fits
  stack_fits := by
    intro other member otherOnStack
    rcases List.mem_append.mp member with old | isNew
    · exact holds.stack_fits other old otherOnStack
    · rw [List.mem_singleton.mp isNew]
      exact fits
  offsets_perm := by
    rw [List.filter_append, List.filter_singleton, decide_eq_true isOnStack, List.map_append,
      ← List.append_assoc]
    exact holds.offsets_perm.append_right _
  parameters_declared :=
    List.rel_append (holds.parameters_declared.imp fun _ _ declared => declared.append rfl)
      (.cons (declaredAt_nextSlot rfl) .nil)

/-- A step adds its parameter to what a frame holds. -/
theorem Holds.step {position? : Option Nat} (step : frame.Step position? next) :
    ∃ more, next.Holds more (positions ++ position?.toList) := by
  cases step with
  | same => exact ⟨places, by simpa using holds⟩
  | taken fits => exact ⟨places + 1, by simpa using holds.taken fits⟩
  | inRegister isInRegister next_eq fits =>
    refine ⟨places + 1, (holds.taken fits).inRegister isInRegister (declaredAt_nextSlot ?_)⟩
    rw [← next_eq]
    rfl
  | onStack isOnStack fits => exact ⟨places, holds.onStack isOnStack fits⟩

end

end FrameState

/-- A run of edits leaves a frame that holds exactly the parameters they declare. -/
theorem Edit.holds_of_foldlM {edits : List Edit} {graph next : Graph} {places : Nat}
    {before : List Nat} (applied : edits.foldlM apply graph = .ok next)
    (holds : graph.frame.Holds places before) :
    ∃ more, next.frame.Holds more (before ++ positions edits) := by
  induction edits generalizing graph places before with
  | nil =>
    obtain rfl := Except.ok.inj applied
    exact ⟨places, by simpa [positions] using holds⟩
  | cons edit edits ih =>
    rw [List.foldlM_cons, bind_eq_ok_iff] at applied
    obtain ⟨middle, first, rest⟩ := applied
    obtain ⟨more, holds⟩ := holds.step (step_of_apply first)
    have split_eq : before ++ positions (edit :: edits) =
        before ++ edit.position?.toList ++ positions edits := by
      cases position_eq : edit.position? <;> simp [positions, position_eq]
    rw [split_eq]
    exact ih rest holds

theorem Edit.holds_of_applyAll {edits : List Edit} {name : String} {graph : Graph}
    (applied : applyAll name edits = .ok graph) :
    graph.frame.Holds (graph.localsSize / 4) (positions edits) := by
  have empty : (Graph.new name).frame.Holds 0 [] :=
    ⟨rfl, rfl, by simp, by simp [Graph.frame, Graph.new, Table.empty], .nil⟩
  obtain ⟨places, holds⟩ := holds_of_foldlM applied empty
  have places_eq : graph.localsSize / 4 = places := by
    have next_eq : graph.nextOffset = Frame.placeOffset places := holds.next_eq
    rw [Graph.localsSize, next_eq, Frame.placeOffset, Frame.firstLocal]
    omega
  simpa [places_eq] using holds

/-! ## Intact frames -/

namespace FrameState

variable {frame : FrameState} {places : Nat} {positions : List Nat} {count : Nat}

/-- All offsets of a frame fit into 32 bits. -/
theorem Holds.offset_fits (holds : frame.Holds places positions) (member : offset ∈ frame.offsets) :
    Frame.fits offset = true := by
  rcases List.mem_append.mp (holds.offsets_perm.mem_iff.mp member) with below | above
  · obtain ⟨place, isTaken, rfl⟩ := List.mem_map.mp below
    have next_fits := holds.next_fits
    rw [holds.next_eq] at next_fits
    rw [Frame.fits_iff] at next_fits ⊢
    rw [List.mem_range] at isTaken
    unfold Frame.placeOffset at next_fits ⊢
    omega
  · obtain ⟨position, isOnStack, rfl⟩ := List.mem_map.mp above
    rw [List.mem_filter, decide_eq_true_iff] at isOnStack
    exact holds.stack_fits position isOnStack.1 isOnStack.2

/-- Symbols whose offsets are different do not run out of slots. -/
theorem Holds.length_le (holds : frame.Holds places positions) (distinct : frame.offsets.Nodup) :
    frame.offsets.length ≤ 2 ^ 32 := by
  have within : frame.offsets.toFinset ⊆ Finset.Ico (-2 ^ 31) (2 ^ 31) := by
    intro offset member
    rw [Finset.mem_Ico, ← Frame.fits_iff]
    exact holds.offset_fits (List.mem_toFinset.mp member)
  calc frame.offsets.length
    _ = frame.offsets.toFinset.card := (List.toFinset_card_of_nodup distinct).symm
    _ ≤ (Finset.Ico (-2 ^ 31 : Int) (2 ^ 31)).card := Finset.card_le_card within
    _ = 2 ^ 32 := by rw [Int.card_Ico]; rfl

section

variable (holds : frame.Holds places (List.range count))
include holds

/-- Parameters that are declared in order are as many as a frame can hold. -/
theorem Holds.count_le : count ≤ Frame.maxParameters := by
  by_contra many
  have limit_eq : Frame.maxParameters = 2 ^ 28 + 4 := by unfold Frame.maxParameters; rfl
  have fits := holds.stack_fits Frame.maxParameters (List.mem_range.mpr (Nat.not_le.mp many))
    (by rw [limit_eq]; decide)
  rw [Frame.declaredOffset_of_lt (by omega), Frame.fits_parameterOffset_iff] at fits
  exact Nat.lt_irrefl _ fits

/-- Parameters that are declared in order get the offsets of their positions. -/
theorem Holds.declaredOffset_eq {position : Nat} (isDeclared : position < count) :
    Frame.declaredOffset position = Frame.parameterOffset position := by
  have limit := holds.count_le
  unfold Frame.maxParameters at limit
  exact Frame.declaredOffset_of_lt (by omega)

/-- Parameters that are declared in order share no offset with any other symbol. -/
theorem Holds.offsets_nodup : frame.offsets.Nodup := by
  rw [holds.offsets_perm.nodup_iff, List.nodup_append]
  refine ⟨?places, ?stack, ?apart⟩
  case places =>
    refine List.nodup_range.map fun first second same => ?_
    unfold Frame.placeOffset at same
    omega
  case stack =>
    refine List.Nodup.map_on ?_ (List.nodup_range.filter _)
    intro first firstMember second secondMember same
    have first_lt := List.mem_range.mp (List.mem_filter.mp firstMember).1
    have second_lt := List.mem_range.mp (List.mem_filter.mp secondMember).1
    rw [holds.declaredOffset_eq first_lt, holds.declaredOffset_eq second_lt] at same
    exact Frame.parameterOffset_injective same
  case apart =>
    intro below belowMember above aboveMember
    obtain ⟨place, -, rfl⟩ := List.mem_map.mp belowMember
    obtain ⟨position, isOnStack, rfl⟩ := List.mem_map.mp aboveMember
    rw [List.mem_filter, decide_eq_true_iff] at isOnStack
    rw [holds.declaredOffset_eq (List.mem_range.mp isOnStack.1), Frame.parameterOffset,
      if_neg (Nat.not_lt.mpr isOnStack.2)]
    unfold Frame.placeOffset Frame.firstStackParameter
    omega

end

end FrameState

namespace Graph

variable {graph : Graph} {places : Nat} {positions : List Nat}

/-- As long as slots do not run out, the slot of a parameter leads to its offset. -/
theorem exists_symbol_of_declaredAt {slot : Slot} {position : Nat}
    (room : graph.symbols.size ≤ 2 ^ 32) (declared : graph.frame.DeclaredAt slot position) :
    ∃ symbol, graph.symbols.get? slot = some symbol ∧
      symbol.frameOffset = Frame.declaredOffset position := by
  obtain ⟨number, rfl, found⟩ := declared
  simp only [frame, List.getElem?_map, Option.map_eq_some_iff] at found
  obtain ⟨symbol, found, offset_eq⟩ := found
  have known : number < graph.symbols.size := (List.getElem?_eq_some_iff.mp found).1
  refine ⟨symbol, ?_, offset_eq⟩
  rw [Table.get?, TableKey.index_ofIndex_of_lt (Nat.lt_of_lt_of_le known room), found]

theorem size_le_of_nodup (holds : graph.frame.Holds places positions)
    (distinct : graph.frame.offsets.Nodup) : graph.symbols.size ≤ 2 ^ 32 := by
  simpa [frame, Table.size] using holds.length_le distinct

/-- Every entry of the list of parameters was declared at the position of the same number. -/
theorem parameter_declaredAt (holds : graph.frame.Holds places positions) {number : Nat}
    {slot : Slot} (found : graph.parameters[number]? = some slot) :
    ∃ position, positions[number]? = some position ∧ graph.frame.DeclaredAt slot position := by
  obtain ⟨listed, rfl⟩ := List.getElem?_eq_some_iff.mp found
  have isDeclared := Nat.lt_of_lt_of_eq listed holds.parameters_declared.length_eq
  exact ⟨positions[number], List.getElem?_eq_getElem isDeclared,
    holds.parameters_declared.get listed isDeclared⟩

theorem frameIntact_of_inOrder {count : Nat}
    (holds : graph.frame.Holds places (List.range count)) : graph.FrameIntact := by
  have distinct := holds.offsets_nodup
  refine ⟨distinct, fun number slot found => ?_⟩
  obtain ⟨position, position_eq, declared⟩ := parameter_declaredAt holds found
  obtain ⟨isDeclared, rfl⟩ := by simpa [List.getElem?_eq_some_iff] using position_eq
  rw [← holds.declaredOffset_eq isDeclared]
  exact exists_symbol_of_declaredAt (size_le_of_nodup holds distinct) declared

theorem inOrder_of_frameIntact (holds : graph.frame.Holds places positions)
    (small : ∀ position ∈ positions, position < 2 ^ 32) (intact : graph.FrameIntact) :
    positions = List.range positions.length := by
  have room := size_le_of_nodup holds intact.offsets_distinct
  refine List.ext_getElem (by simp) fun number isDeclared _ => ?_
  have isListed := Nat.lt_of_lt_of_eq isDeclared holds.parameters_declared.length_eq.symm
  have declared := holds.parameters_declared.get isListed isDeclared
  obtain ⟨symbol, found, declared_eq⟩ := exists_symbol_of_declaredAt room declared
  obtain ⟨other, otherFound, offset_eq⟩ :=
    intact.parameter_offset number _ (List.getElem?_eq_getElem isListed)
  obtain rfl : symbol = other := Option.some.inj (found.symm.trans otherFound)
  rw [List.getElem_range]
  exact Frame.eq_of_declaredOffset_eq (small _ (List.getElem_mem _))
    (declared_eq.symm.trans offset_eq)

end Graph

/-- After any edits that all succeed, variables, temporaries and register parameters fill the places
below the frame base, each one once, and the only other symbols are the parameters on the stack, at
the offsets of the positions at which they are declared.  Nothing more is checked about those, so the
frame is intact exactly when parameters are declared at the positions `0, 1, 2, …`; positions of more
than 32 bits are cut off and can also land in the right place. -/
theorem frame_intact_iff_declared_in_order {name : String} {edits : List Edit} {graph : Graph}
    (applied : Edit.applyAll name edits = .ok graph) :
    (graph.symbols.entries.map (·.frameOffset)).Perm
        ((List.range (graph.localsSize / 4)).map Frame.placeOffset ++
          ((Edit.positions edits).filter (Frame.registerParameters ≤ ·)).map Frame.declaredOffset) ∧
      (graph.symbols.size ≤ 2 ^ 32 →
        List.Forall₂
          (fun slot position => ∃ symbol, graph.symbols.get? slot = some symbol ∧
            symbol.frameOffset = Frame.declaredOffset position)
          graph.parameters (Edit.positions edits)) ∧
      (Edit.InOrder edits → graph.FrameIntact) ∧
      ((∀ position ∈ Edit.positions edits, position < 2 ^ 32) → graph.FrameIntact →
        Edit.InOrder edits) := by
  have holds := Edit.holds_of_applyAll applied
  refine ⟨holds.offsets_perm, fun room => ?_, fun inOrder => ?_, fun small intact => ?_⟩
  · exact holds.parameters_declared.imp fun _ _ => Graph.exists_symbol_of_declaredAt room
  · rw [inOrder] at holds
    exact Graph.frameIntact_of_inOrder holds
  · exact Graph.inOrder_of_frameIntact holds small intact

/-- The parameters of a function that are passed in registers, in order. -/
def registerParameterEdits : List Edit :=
  ["a", "b", "c", "d", "e", "f"].zipIdx.map fun entry => .declareParameter entry.1 .int entry.2

/-- Eight parameters in order, where those on the stack come after a temporary and after a scope that
was closed. -/
def interleavedEdits : List Edit :=
  registerParameterEdits ++
    [.newTemporary .int, .declareParameter "g" .int 6, .enterScope, .declareVariable "x" .int,
      .leaveScope, .declareParameter "h" .int 7]

/-- Other symbols between the parameters leave the frame intact. -/
theorem frame_intact_iff_declared_in_order_interleaved :
    ∃ graph, Edit.applyAll "f" interleavedEdits = .ok graph ∧ graph.symbols.size ≤ 2 ^ 32 ∧
      List.Forall₂
        (fun slot position => ∃ symbol, graph.symbols.get? slot = some symbol ∧
          symbol.frameOffset = Frame.declaredOffset position)
        graph.parameters (Edit.positions interleavedEdits) ∧
      Edit.InOrder interleavedEdits ∧
      (∀ position ∈ Edit.positions interleavedEdits, position < 2 ^ 32) ∧ graph.FrameIntact := by
  have evaluated : (Edit.applyAll "f" interleavedEdits).toOption.any
      (fun graph => decide (graph.symbols.size ≤ 10)) = true := by
    cbv
  obtain ⟨graph, applied, few⟩ := exists_ok_of_any evaluated
  have room : graph.symbols.size ≤ 2 ^ 32 := Nat.le_trans (of_decide_eq_true few) (by decide)
  have inOrder : Edit.InOrder interleavedEdits := by decide
  obtain ⟨-, declared, intact, -⟩ := frame_intact_iff_declared_in_order applied
  exact ⟨graph, applied, room, declared room, inOrder, by decide, intact inOrder⟩

/-- Two parameters that are declared at one position on the stack share its offset. -/
theorem stack_parameters_share_offset :
    ∃ graph,
      Edit.applyAll "f" (registerParameterEdits ++
          [.declareParameter "g" .int 6, .declareParameter "h" .int 6]) = .ok graph ∧
        graph.symbols.entries.map (·.frameOffset) = [-4, -8, -12, -16, -20, -24, 16, 16] ∧
          ¬graph.FrameIntact := by
  have evaluated : (Edit.applyAll "f" (registerParameterEdits ++
      [.declareParameter "g" .int 6, .declareParameter "h" .int 6])).toOption.any
        (fun graph => graph.symbols.entries.map (·.frameOffset) ==
          [-4, -8, -12, -16, -20, -24, 16, 16]) = true := by
    cbv
  obtain ⟨graph, applied, offsets_eq⟩ := exists_ok_of_any evaluated
  refine ⟨graph, applied, eq_of_beq offsets_eq, fun intact => ?_⟩
  have distinct := intact.offsets_distinct
  rw [eq_of_beq offsets_eq] at distinct
  revert distinct
  decide

end SmallC
