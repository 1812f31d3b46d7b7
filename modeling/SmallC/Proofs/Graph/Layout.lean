import SmallC.Proofs.Graph.Invariant

/-!
# The layout of frames

The offset of a symbol follows from the number of parameters and from the number of the symbol: the
parameters come first, and everything else goes downwards from the frame base in the order of its
declaration.  Every step of lowering keeps this layout.  It bounds the number of symbols, so slots
never run out, and the slots in scope are all different.
-/

namespace SmallC

namespace Frame

/-! ## Offsets -/

/-- The offset of a parameter by its position. -/
def parameterOffset (position : Nat) : Int :=
  if position < registerParameters then firstLocal - 4 * position
  else firstStackParameter + 8 * (position - registerParameters : Nat)

/-- The number of places below the frame base that are taken before a symbol that is not a
parameter, by the number of the symbol. -/
def placesBefore (parameters number : Nat) : Nat :=
  min parameters registerParameters + (number - parameters)

/-- The offset of the symbol with a number, in a function with a number of parameters. -/
def slotOffset (parameters number : Nat) : Int :=
  if number < parameters then parameterOffset number
  else firstLocal - 4 * placesBefore parameters number

/-- The greatest number of parameters whose offsets all fit into 32 bits. -/
@[irreducible]
def maxParameters : Nat :=
  2 ^ 28 + 4

theorem fits_iff {offset : Int} : fits offset = true ↔ -2 ^ 31 ≤ offset ∧ offset < 2 ^ 31 := by
  simp [fits]

theorem fits_parameterOffset_iff {position : Nat} :
    fits (parameterOffset position) = true ↔ position < maxParameters := by
  rw [fits_iff]
  unfold parameterOffset maxParameters firstLocal firstStackParameter registerParameters
  split <;> omega

/-- Different symbols have places that do not overlap. -/
theorem slotOffset_apart (parameters : Nat) {first second : Nat} (different : first ≠ second) :
    slotOffset parameters first + 4 ≤ slotOffset parameters second ∨
      slotOffset parameters second + 4 ≤ slotOffset parameters first := by
  unfold slotOffset parameterOffset placesBefore firstLocal firstStackParameter registerParameters
  split_ifs <;> omega

end Frame

namespace Graph

/-! ## Laid out graphs -/

/-- A graph whose symbols have the places that their numbers give them. -/
structure LaidOut (graph : Graph) : Prop where
  parameters_eq : graph.parameters = (List.range graph.parameters.length).map TableKey.ofIndex
  parameters_le : graph.parameters.length ≤ graph.symbols.size
  parameters_fit : graph.parameters.length ≤ Frame.maxParameters
  offset_eq : ∀ number symbol, graph.symbols.entries[number]? = some symbol →
    symbol.frameOffset = Frame.slotOffset graph.parameters.length number
  next_eq : graph.nextOffset =
    Frame.firstLocal - 4 * Frame.placesBefore graph.parameters.length graph.symbols.size
  next_fits : Frame.fits graph.nextOffset = true

/-- The scopes of a graph name every slot at most once, and no temporary that is still to come. -/
structure WellNamed (graph : Graph) : Prop where
  distinct : (graph.scopes.all.flatten.map Prod.snd).Nodup
  temporaries : ∀ entry ∈ graph.scopes.all.flatten, ∀ number,
    entry.1 = temporaryName number → number < graph.nextTemporary

variable {graph next : Graph}

section

variable (laid : graph.LaidOut)
include laid

/-- There are far fewer symbols than slots. -/
theorem LaidOut.size_lt : graph.symbols.size < 2 ^ 32 := by
  have fits := Frame.fits_iff.mp laid.next_fits
  have limit := laid.parameters_fit
  rw [laid.next_eq] at fits
  unfold Frame.placesBefore Frame.firstLocal Frame.registerParameters at fits
  unfold Frame.maxParameters at limit
  omega

/-- The slot of the next symbol is its number. -/
theorem LaidOut.index_nextKey : TableKey.index graph.symbols.nextKey = graph.symbols.size :=
  TableKey.index_ofIndex_of_lt laid.size_lt

/-- The offset of the symbol of a slot. -/
theorem LaidOut.frameOffset_eq {slot : Slot} {symbol : GraphSymbol}
    (found : graph.symbols.get? slot = some symbol) :
    symbol.frameOffset = Frame.slotOffset graph.parameters.length (TableKey.index slot) :=
  laid.offset_eq _ symbol found

/-- The bytes below the frame base are four for each symbol that is not passed on the stack. -/
theorem LaidOut.localsSize_eq :
    graph.localsSize = 4 * Frame.placesBefore graph.parameters.length graph.symbols.size := by
  unfold Graph.localsSize
  rw [laid.next_eq]
  omega

/-- A symbol at the next place keeps the layout. -/
theorem LaidOut.declared (name : String) (fits : Frame.fits (graph.nextOffset - 4) = true) :
    (graph.declared name).LaidOut := by
  have room := laid.parameters_le
  refine ⟨laid.parameters_eq, ?le, laid.parameters_fit, ?offsets, ?next, fits⟩
  case le => simpa using Nat.le_succ_of_le room
  case offsets =>
    intro number symbol found
    simp only [declared_symbols, placed_symbols, Table.push, List.getElem?_append] at found
    split at found
    · exact laid.offset_eq number symbol found
    · simp only [List.getElem?_singleton, Option.ite_none_right_eq_some, Option.some.injEq] at found
      obtain ⟨at_end, rfl⟩ := found
      have number_eq : number = graph.symbols.size := by
        unfold Table.size
        omega
      subst number_eq
      simp only [declared_parameters, placed_parameters, Frame.slotOffset, Nat.not_lt.mpr room,
        if_false]
      exact laid.next_eq
  case next =>
    simp only [declared_nextOffset, laid.next_eq, declared_parameters, placed_parameters,
      declared_symbols, placed_symbols, Table.size_push, Frame.placesBefore]
    omega

end

/-- A new symbol is in scope under a slot of its own. -/
theorem WellNamed.placed (named : graph.WellNamed) (formed : graph.WellFormed) (laid : graph.LaidOut)
    {name : String} {bound : Nat} (later : graph.nextTemporary ≤ bound)
    (known : ∀ number, name = temporaryName number → number < bound) (offset : Int) :
    ({ graph.placed name offset with nextTemporary := bound } : Graph).WellNamed := by
  refine ⟨?distinct, ?temporaries⟩
  case distinct =>
    simp only [placed_scopes, Scopes.all, Scopes.declare, List.flatten_cons, List.cons_append,
      List.map_cons, List.nodup_cons]
    refine ⟨?_, named.distinct⟩
    intro member
    obtain ⟨entry, present, slot_eq⟩ := List.mem_map.mp member
    obtain ⟨scope, inScopes, inScope⟩ :=
      List.mem_flatten.mp (show entry ∈ graph.scopes.all.flatten from present)
    have old := formed.scopes_known scope inScopes entry inScope
    rw [slot_eq, HasSlot, laid.index_nextKey] at old
    exact Nat.lt_irrefl _ old
  case temporaries =>
    simp only [placed_scopes, Scopes.all, Scopes.declare, List.flatten_cons, List.cons_append,
      List.forall_mem_cons]
    exact ⟨known, fun entry member number name_eq =>
      Nat.lt_of_lt_of_le (named.temporaries entry member number name_eq) later⟩

/-- What every graph satisfies while it is built. -/
structure Invariant (graph : Graph) : Prop where
  formed : graph.WellFormed
  laid : graph.LaidOut
  named : graph.WellNamed

theorem Invariant.step (kept : graph.Invariant) (step : Step graph next) : next.Invariant := by
  obtain ⟨formed, laid, named⟩ := kept
  refine ⟨formed.step step, ?laid, ?named⟩
  case laid =>
    cases step with
    | declared _ can => exact laid.declared _ can.fits
    | withTemporary can => exact { laid.declared _ can.fits with }
    | created _ | extended _ | jumping _ | branching _ _ _ | entered _ _ | opened
    | closed _ => exact { laid with }
  case named =>
    cases step with
    | @declared name isVariable _ =>
      have known (number : Nat) (name_eq : name = temporaryName number) :
          number < graph.nextTemporary := by
        simp [name_eq] at isVariable
      exact { named.placed formed laid (Nat.le_refl _) known graph.nextOffset with }
    | withTemporary _ =>
      have known (number : Nat)
          (name_eq : temporaryName graph.nextTemporary = temporaryName number) :
          number < graph.nextTemporary + 1 := by
        rw [temporaryName_injective name_eq]
        exact Nat.lt_succ_self _
      exact { named.placed formed laid (Nat.le_succ _) known graph.nextOffset with }
    | created _ | extended _ | jumping _ | branching _ _ _ | entered _ _ => exact { named with }
    | opened =>
      refine ⟨?_, ?_⟩
      · simpa using named.distinct
      · simpa using named.temporaries
    | closed left =>
      have all_eq := Scopes.all_of_leave? left
      obtain ⟨distinct, temporaries⟩ := named
      rw [all_eq, List.flatten_cons, List.map_append] at distinct
      rw [all_eq, List.flatten_cons, List.forall_mem_append] at temporaries
      exact ⟨(List.nodup_append.mp distinct).2.1, temporaries.2⟩

theorem Steps.invariant (steps : Steps graph next) (kept : graph.Invariant) : next.Invariant := by
  induction steps with
  | refl => exact kept
  | tail _ step ih => exact ih.step step

end Graph

end SmallC
