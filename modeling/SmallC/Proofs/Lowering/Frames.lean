import SmallC.Proofs.Lowering.Complete

/-!
# The frames of lowered functions

The layout that lowering keeps, read as a statement about the finished frame: where each parameter
is, that everything else fills the places below the frame base without a gap, and that no two cells
overlap each other or what the call left at the frame base.
-/

namespace SmallC

namespace Frame

/-- Whether the symbol with a number is a parameter that is passed on the stack. -/
def onStack (parameters number : Nat) : Bool :=
  decide (registerParameters ≤ number ∧ number < parameters)

/-- The offset of the place with a number below the frame base. -/
def placeOffset (place : Nat) : Int :=
  -4 * (place + 1)

/-- The number of places below the frame base that the first symbols take. -/
def placesOf (parameters count : Nat) : Nat :=
  min count (min parameters registerParameters) + (count - parameters)

variable {number : Nat}

theorem placesOf_succ_of_onStack {parameters : Nat} (stacked : onStack parameters number = true) :
    placesOf parameters (number + 1) = placesOf parameters number := by
  simp only [onStack, decide_eq_true_eq] at stacked
  unfold placesOf
  omega

/-- A symbol that is not passed on the stack takes the next place. -/
theorem slotOffset_of_not_onStack {parameters : Nat} (kept : onStack parameters number = false) :
    slotOffset parameters number = placeOffset (placesOf parameters number) ∧
      placesOf parameters (number + 1) = placesOf parameters number + 1 := by
  simp only [onStack, decide_eq_false_iff_not] at kept
  unfold slotOffset parameterOffset placesBefore placeOffset placesOf firstLocal
  unfold registerParameters at *
  constructor
  · split_ifs <;> omega
  · omega

/-- The symbols that are not passed on the stack take the places below the frame base in order. -/
theorem slotOffsets_of_not_onStack (parameters count : Nat) :
    ((List.range count).filter fun number => !onStack parameters number).map
        (slotOffset parameters) =
      (List.range (placesOf parameters count)).map placeOffset := by
  induction count with
  | zero => simp [placesOf]
  | succ number ih =>
    rw [List.range_succ, List.filter_append, List.map_append, ih]
    cases stacked : onStack parameters number with
    | true =>
      rw [placesOf_succ_of_onStack stacked]
      simp [stacked]
    | false =>
      obtain ⟨offset_eq, places_eq⟩ := slotOffset_of_not_onStack stacked
      rw [places_eq, List.range_succ, List.map_append]
      simp [stacked, offset_eq]

end Frame

namespace Graph

/-- The parameters that are passed on the stack. -/
def stackParameters (graph : Graph) : List Slot :=
  graph.parameters.drop Frame.registerParameters

/-- The offsets of variables, temporaries and register parameters of all scopes, in the order of
their declaration. -/
def localOffsets (graph : Graph) : List Int :=
  (graph.symbols.enumerate.filter fun entry => !graph.stackParameters.contains entry.1).map
    (·.2.frameOffset)

/-- The frame of a function with a number of parameters. -/
structure HasFrame (parameters : Nat) (graph : Graph) : Prop where
  parameters_length : graph.parameters.length = parameters
  /-- The first six parameters go downwards from the frame base in steps of four, the others upwards
  in steps of eight. -/
  parameter_offset : ∀ (position : Nat) slot, graph.parameters[position]? = some slot →
    ∃ symbol, graph.symbols.get? slot = some symbol ∧
      symbol.frameOffset =
        if position < 6 then -4 * (position + 1 : Int) else 16 + 8 * (position - 6 : Nat)
  /-- The other symbols and the register parameters fill the places below the frame base, each one
  once. -/
  locals_fill : 4 ∣ graph.localsSize ∧
    graph.localOffsets =
      (List.range (graph.localsSize / 4)).map fun place : Nat => -4 * (place + 1 : Int)
  cells_apart : ∀ first second firstSymbol secondSymbol, first ≠ second →
    graph.symbols.get? first = some firstSymbol → graph.symbols.get? second = some secondSymbol →
      firstSymbol.frameOffset + 4 ≤ secondSymbol.frameOffset ∨
        secondSymbol.frameOffset + 4 ≤ firstSymbol.frameOffset
  /-- The saved frame base and the return address are not part of any cell. -/
  base_apart : ∀ slot symbol, graph.symbols.get? slot = some symbol →
    symbol.frameOffset + 4 ≤ 0 ∨ 16 ≤ symbol.frameOffset
  locals_reserved : ∀ slot symbol, graph.symbols.get? slot = some symbol →
    symbol.frameOffset < 0 → -(Assembly.frameSize graph : Int) ≤ symbol.frameOffset
  frame_least : IsLeast {bytes | 16 ∣ bytes ∧ graph.localsSize ≤ bytes} (Assembly.frameSize graph)

/-- The bytes that a function reserves are the least multiple of sixteen that holds its locals. -/
theorem frameSize_isLeast (graph : Graph) :
    IsLeast {bytes | 16 ∣ bytes ∧ graph.localsSize ≤ bytes} (Assembly.frameSize graph) := by
  unfold Assembly.frameSize
  constructor
  · constructor
    · exact Nat.dvd_mul_left _ _
    · omega
  · rintro bytes ⟨⟨count, rfl⟩, enough⟩
    omega

variable {graph : Graph}

section

variable (laid : graph.LaidOut)
include laid

/-- A slot is a parameter on the stack exactly when its number says so. -/
theorem LaidOut.contains_stackParameters (known : number < graph.symbols.size) :
    graph.stackParameters.contains (TableKey.ofIndex number) =
      Frame.onStack graph.parameters.length number := by
  have small := Nat.lt_trans known laid.size_lt
  have numbers (other : Nat) :
      other ∈ (List.range graph.parameters.length).drop Frame.registerParameters ↔
        Frame.registerParameters ≤ other ∧ other < graph.parameters.length := by
    rw [List.range_eq_range', List.drop_range', List.mem_range'_1]
    omega
  rw [Bool.eq_iff_iff, List.contains_iff_mem, Frame.onStack, decide_eq_true_eq, ← numbers,
    stackParameters]
  nth_rewrite 1 [laid.parameters_eq]
  rw [← List.map_drop, List.mem_map]
  constructor
  · rintro ⟨other, member, key_eq⟩
    have other_lt := Nat.lt_of_lt_of_le ((numbers other).mp member).2 laid.parameters_le
    have index_eq := congrArg TableKey.index key_eq
    rw [TableKey.index_ofIndex_of_lt (Nat.lt_trans other_lt laid.size_lt),
      TableKey.index_ofIndex_of_lt small] at index_eq
    exact index_eq ▸ member
  · intro member
    exact ⟨number, member, rfl⟩

/-- The slots and offsets of the symbols of a graph, by their numbers. -/
theorem LaidOut.offsets_eq :
    graph.symbols.enumerate.map (fun entry => (entry.1, entry.2.frameOffset)) =
      (List.range graph.symbols.size).map fun number =>
        (TableKey.ofIndex number, Frame.slotOffset graph.parameters.length number) := by
  apply List.ext_getElem?
  intro number
  rw [List.getElem?_map, List.getElem?_map, Table.enumerate, Table.keys]
  cases found : graph.symbols.entries[number]? with
  | none =>
    have beyond : graph.symbols.size ≤ number := List.getElem?_eq_none_iff.mp found
    simp [beyond]
  | some symbol =>
    have known : number < graph.symbols.size := (List.getElem?_eq_some_iff.mp found).1
    have zipped : (((List.range graph.symbols.size).map TableKey.ofIndex).zip
        graph.symbols.entries)[number]? = some ((TableKey.ofIndex number : Slot), symbol) := by
      rw [List.getElem?_zip_eq_some]
      exact ⟨by simp [known], found⟩
    simp [zipped, known, laid.offset_eq number symbol found]

theorem LaidOut.localOffsets_eq :
    graph.localOffsets =
      (List.range (Frame.placesOf graph.parameters.length graph.symbols.size)).map
        Frame.placeOffset := by
  have pairs_eq : graph.localOffsets =
      ((graph.symbols.enumerate.map fun entry => (entry.1, entry.2.frameOffset)).filter
        fun entry => !graph.stackParameters.contains entry.1).map Prod.snd := by
    rw [List.filter_map, List.map_map]
    rfl
  rw [pairs_eq, laid.offsets_eq, List.filter_map, List.map_map, ← Frame.slotOffsets_of_not_onStack]
  refine congrArg (List.map _) (List.filter_congr fun number member => ?_)
  rw [Function.comp_apply, laid.contains_stackParameters (List.mem_range.mp member)]

/-- The places below the frame base are the bytes of the locals. -/
theorem LaidOut.localsSize_eq_places :
    graph.localsSize = 4 * Frame.placesOf graph.parameters.length graph.symbols.size := by
  have count_le := laid.parameters_le
  rw [laid.localsSize_eq]
  unfold Frame.placesBefore Frame.placesOf
  omega

/-- The parameter at a position is the symbol with that number. -/
theorem LaidOut.index_parameter {position : Nat} {slot : Slot}
    (found : graph.parameters[position]? = some slot) :
    position < graph.parameters.length ∧ TableKey.index slot = position := by
  have position_lt : position < graph.parameters.length := (List.getElem?_eq_some_iff.mp found).1
  have small : position < 2 ^ 32 :=
    Nat.lt_trans (Nat.lt_of_lt_of_le position_lt laid.parameters_le) laid.size_lt
  rw [laid.parameters_eq, List.getElem?_map, List.getElem?_range position_lt, Option.map_some,
    Option.some.injEq] at found
  rw [← found]
  exact ⟨position_lt, TableKey.index_ofIndex_of_lt small⟩

/-- A graph that is laid out has the frame of its parameters. -/
theorem LaidOut.hasFrame : graph.HasFrame graph.parameters.length where
  parameters_length := rfl
  parameter_offset := by
    intro position slot found
    obtain ⟨position_lt, index_eq⟩ := laid.index_parameter found
    have known : graph.HasSlot slot := by
      rw [HasSlot, index_eq]
      exact Nat.lt_of_lt_of_le position_lt laid.parameters_le
    obtain ⟨symbol, symbol_eq⟩ := exists_symbol known
    refine ⟨symbol, symbol_eq, ?_⟩
    rw [laid.frameOffset_eq symbol_eq, index_eq]
    unfold Frame.slotOffset Frame.parameterOffset Frame.firstLocal Frame.firstStackParameter
      Frame.registerParameters
    split_ifs <;> omega
  locals_fill := by
    rw [laid.localOffsets_eq, laid.localsSize_eq_places, Nat.mul_div_cancel_left _ (by omega)]
    exact ⟨Nat.dvd_mul_right _ _, rfl⟩
  cells_apart := by
    intro first second firstSymbol secondSymbol different firstFound secondFound
    rw [laid.frameOffset_eq firstFound, laid.frameOffset_eq secondFound]
    apply Frame.slotOffset_apart
    intro same
    apply different
    rw [← TableKey.ofIndex_index first, same, TableKey.ofIndex_index]
  base_apart := by
    intro slot symbol found
    rw [laid.frameOffset_eq found]
    unfold Frame.slotOffset Frame.parameterOffset Frame.firstLocal Frame.firstStackParameter
    split_ifs <;> omega
  locals_reserved := by
    intro slot symbol found below
    have known : TableKey.index slot < graph.symbols.size := (List.getElem?_eq_some_iff.mp found).1
    have enough := (frameSize_isLeast graph).1.2
    have count_le := laid.parameters_le
    rw [laid.localsSize_eq] at enough
    rw [laid.frameOffset_eq found] at below ⊢
    revert below
    unfold Frame.slotOffset Frame.parameterOffset Frame.firstLocal Frame.firstStackParameter
    unfold Frame.placesBefore Frame.registerParameters at *
    split_ifs <;> omega
  frame_least := frameSize_isLeast graph

end

end Graph

/-- Every function of a program that is lowered has the frame of its parameters. -/
theorem lower_lays_out_frames {text : List Char} {program : Program} {graphs : List Graph}
    (parsed : parseProgram text = .ok program) (lowered : program.lower = .ok graphs) :
    List.Forall₂ (fun function graph => graph.HasFrame function.parameters.length)
      program.functions graphs := by
  have tree := Program.wellFormed_of_parse parsed
  refine (Lowering.functionLowered_of_lowerFunctions tree lowered).imp ?_
  rintro function graph ⟨-, taken, functionLowered⟩
  rw [← functionLowered.parameters_length]
  exact functionLowered.kept.laid.hasFrame

/-- A function with a parameter on the stack, a variable that hides another parameter in an inner
scope, and a temporary. -/
theorem lower_lays_out_frames_seven :
    ∃ program graphs,
      parseProgram
          "int f(int a,int b,int c,int d,int e,int g,int h)\x7b\x7bint a=h+1;\x7d\x7d".toList =
          .ok program ∧
        program.lower = .ok graphs ∧
          List.Forall₂ (fun function graph => graph.HasFrame function.parameters.length)
            program.functions graphs := by
  have evaluated : (parseProgram
      "int f(int a,int b,int c,int d,int e,int g,int h)\x7b\x7bint a=h+1;\x7d\x7d".toList).toOption.any
        (fun program => program.lower.toOption.any fun _ => true) = true := by
    cbv
  obtain ⟨program, graphs, parsed, lowered, -⟩ := exists_lowered_of_any evaluated
  exact ⟨program, graphs, parsed, lowered, lower_lays_out_frames parsed lowered⟩

end SmallC
