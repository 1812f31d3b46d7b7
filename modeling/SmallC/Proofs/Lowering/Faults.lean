import SmallC.Proofs.Lowering.Building
import SmallC.Proofs.Lowering.Cases

/-!
# How lowering fails

Every failure of lowering is reported as an internal error of the compiler, with one exception: the
offset of a symbol may not fit into 32 bits.  That takes so many symbols that the footprint of the
program shows it.  A key that does not exist is never used, because lowering only refers to blocks
that it created.  Of the other failures, those about names in scope, jumps and literals depend on the
program; the rest never happens where there is room.  Here are the single steps of lowering, each
with what it gives and how it fails.
-/

namespace SmallC

/-! ## Texts of faults -/

/-- A fault whose text says that it is an internal error of the compiler. -/
def Fault.Internal (fault : Fault) : Prop :=
  ∃ before message after, fault.message? = some (before ++ Fault.internal message ++ after)

namespace Fault

theorem comparison_eq (relation message left right : String) :
    comparison relation message left right =
      "assertion `left " ++ relation ++ " right` failed: " ++ message ++
        ("\n  left: " ++ left ++ "\n right: " ++ right) := by
  unfold comparison
  repeat rw [String.append_assoc]

/-- Whether a fault is neither an overflow nor a missing key. -/
def isInternal : Fault → Bool
  | .frameOverflow => false
  | .outOfBounds _ => false
  | _ => true

variable {fault : Fault}

/-- All texts are marked, except that an overflow has no text and a missing key has its own. -/
theorem internal_of_isInternal (marked : fault.isInternal = true) :
    fault.Internal := by
  have plain {message : String} (text : fault.message? = some (internal message)) :
      fault.Internal :=
    ⟨"", message, "", by rw [text, String.append_empty, String.empty_append]⟩
  have compared {relation message left right : String}
      (text : fault.message? = some (comparison relation (internal message) left right)) :
      fault.Internal :=
    ⟨_, message, _, text.trans (congrArg some (comparison_eq relation _ left right))⟩
  cases fault with
  | outOfBounds error | frameOverflow => cases marked
  | voidVariable name | notInParameterScope depth
  | parameterOrder position function offset expected => exact compared rfl
  | _ => exact plain rfl

/-- Whether a fault is about names in scope, jumps out of loops or values of literals. -/
def isScoping : Fault → Bool
  | .undeclared _ _ => true
  | .declaredTwice name => !isTemporary name
  | .hidesParameter name _ => !isTemporary name
  | .outsideLoop _ => true
  | .invalidInteger _ => true
  | .emptyCharLiteral => true
  | _ => false

theorem isInternal_of_isScoping (scoping : fault.isScoping = true) :
    fault.isInternal = true := by
  cases fault <;> first | rfl | cases scoping

end Fault

/-! ## Single steps -/

/-- A step that gives a value and a graph. -/
def Giving {α : Type} (fails : Fault → Prop) (holds : α → Graph → Prop) :
    Except Fault (α × Graph) → Prop :=
  Outcome fails fun read => holds read.1 read.2

theorem Giving.bind {α β : Type} {fails : Fault → Prop} {holds : α → Graph → Prop}
    {after : β → Prop} {first : Except Fault (α × Graph)} {next : α × Graph → Except Fault β}
    (giving : Giving fails holds first)
    (rest : ∀ value graph, holds value graph → Outcome fails after (next (value, graph))) :
    Outcome fails after (first >>= next) :=
  Outcome.bind giving fun read => rest read.1 read.2

theorem Giving.of_eq_ok {α : Type} {fails : Fault → Prop} {holds : α → Graph → Prop}
    {step : Except Fault (α × Graph)} {value : α} {graph : Graph} (giving : Giving fails holds step)
    (done : step = .ok (value, graph)) : holds value graph := by
  subst done
  exact giving

namespace Graph

open SmallC.Lowering

variable {fails : Fault → Prop} {graph : Graph} {name : String} {id : BlockId}

/-- An instruction is added, and lowering goes on. -/
theorem outcome_add_bind {α : Type} {holds : α → Prop} (known : graph.HasBlock graph.current)
    {instruction : Instruction} {rest : Graph → Except Fault α}
    (goesOn : Outcome fails holds (rest (graph.extended instruction))) :
    Outcome fails holds (graph.add instruction >>= rest) := by
  rwa [add_eq_ok_iff.mpr ⟨known, rfl⟩]

theorem outcome_add {holds : Graph → Prop} (known : graph.HasBlock graph.current)
    {instruction : Instruction} (extended : holds (graph.extended instruction)) :
    Outcome fails holds (graph.add instruction) := by
  rwa [add_eq_ok_iff.mpr ⟨known, rfl⟩]

/-- A block can be entered unless it was emitted before. -/
theorem isInternal_enterBlock (emitted : ∀ id ∈ graph.order, graph.HasBlock id)
    (failed : enterBlock id graph = .error fault) : id ∈ graph.order ∧ fault.isInternal = true := by
  unfold enterBlock appendBlock at failed
  split at failed
  · rename_i isEmitted
    have member : id ∈ graph.order := by simpa using isEmitted
    obtain ⟨block, found⟩ := exists_block (emitted id member)
    rw [block_eq_ok_iff.mpr found] at failed
    cases failed
    exact ⟨member, rfl⟩
  · cases failed

theorem outcome_resolve (scoping : ∀ fault, fault.isScoping = true → fails fault) (name : String) :
    Outcome fails (fun slot => graph.scopes.lookup? name = some slot) (resolve name graph) := by
  unfold resolve
  split
  · rename_i slot found
    exact found
  · exact scoping _ rfl

theorem outcome_accepted_andThen {declaration : Declaration}
    {further : Slot → Graph → Except Fault Graph}
    (declares : Outcome fails (fun _ => True) declaration.accepted)
    (goesOn : ∀ slot, Outcome fails (fun _ => True) (further slot declaration.graph)) :
    Outcome fails (fun _ => True) (declaration.andThen further).accepted := by
  obtain ⟨fault | slot, after⟩ := declaration
  · exact declares
  · have later := goesOn slot
    simp only [Declaration.andThen]
    cases outcome : further slot after with
    | error fault =>
      rw [outcome] at later
      exact later
    | ok last => trivial

theorem outcome_insertSymbol
    (twice : graph.scopes.declaresHere name = true → fails (.declaredTwice name))
    (hides : graph.scopes.hidesParameter name = true → fails (.hidesParameter name graph.name))
    (offset : Int) :
    Outcome fails (fun _ => True) (graph.insertSymbol name .int offset).accepted := by
  simp only [insertSymbol, reduceCtorEq, if_false]
  split
  · rename_i here
    exact twice here
  · split
    · rename_i hidden
      exact hides hidden
    · trivial

theorem outcome_checked {offset : Int} (full : Frame.fits offset = false → fails .frameOverflow) :
    Outcome fails (fun _ => True) (Frame.checked offset) := by
  unfold Frame.checked
  split
  · trivial
  · rename_i tight
    exact full (Bool.eq_false_iff.mpr tight)

theorem outcome_declareVariable
    (twice : graph.scopes.declaresHere name = true → fails (.declaredTwice name))
    (hides : graph.scopes.hidesParameter name = true → fails (.hidesParameter name graph.name))
    (full : Frame.fits (graph.nextOffset - 4) = false → fails .frameOverflow) :
    Outcome fails (fun _ => True) (graph.declareVariable name .int).accepted := by
  refine outcome_accepted_andThen (outcome_insertSymbol twice hides _) fun slot => ?_
  have offset_eq : (graph.insertSymbol name .int graph.nextOffset).graph.nextOffset =
      graph.nextOffset := by
    simp only [insertSymbol, reduceCtorEq, if_false]
    split
    · rfl
    · split <;> rfl
  simp only [reserve, TypeName.size, ok_bind, offset_eq]
  exact (outcome_checked full).bind fun _ _ => trivial

/-! ## Room -/

/-- A graph with room for one more symbol has a place for it in the frame. -/
theorem Invariant.fits (kept : graph.Invariant) (room : graph.symbols.size + 1 < 2 ^ 29) :
    Frame.fits (graph.nextOffset - 4) = true := by
  have count := kept.laid.parameters_le
  rw [Frame.fits_iff, kept.laid.next_eq]
  unfold Frame.placesBefore Frame.firstLocal Frame.registerParameters
  omega

/-- A name that no scope declares is not declared in the innermost one. -/
theorem declaresHere_of_not_mem (scopes : Scopes Slot)
    (absent : ∀ entry ∈ scopes.all.flatten, entry.1 ≠ name) : scopes.declaresHere name = false := by
  rw [Scopes.declaresHere_eq_false_iff]
  intro member
  obtain ⟨entry, present, rfl⟩ := List.mem_map.mp member
  exact absent entry (by simp [Scopes.all, present]) rfl

theorem hidesParameter_of_not_mem {scopes : Scopes Slot}
    (absent : ∀ entry ∈ scopes.all.flatten, entry.1 ≠ name) :
    scopes.hidesParameter name = false := by
  obtain ⟨innermost, enclosing⟩ := scopes
  match enclosing with
  | [] => rfl
  | [parameters] =>
    exact declaresHere_of_not_mem (.single parameters) fun entry member =>
      absent entry (by simp_all [Scopes.all, Scopes.single])
  | _ :: _ :: _ => rfl

theorem Invariant.canTakeTemporary (kept : graph.Invariant)
    (room : graph.symbols.size + 1 < 2 ^ 29) : graph.CanTakeTemporary := by
  have absent : ∀ entry ∈ graph.scopes.all.flatten, entry.1 ≠ temporaryName graph.nextTemporary :=
    fun entry member name_eq =>
      Nat.lt_irrefl _ (kept.named.temporaries entry member graph.nextTemporary name_eq)
  exact ⟨declaresHere_of_not_mem _ absent, hidesParameter_of_not_mem absent, kept.fits room⟩

/-- A graph in which a part of a program cannot fail otherwise than given: there is room for the
symbols and the blocks of the part, or what happens without room is among the given faults. -/
structure Roomy (fails : Fault → Prop) (footprint : Footprint) (graph : Graph) : Prop where
  formed : graph.WellFormed
  frame : (∀ fault, fault.isInternal = true → fails fault) ∧ fails .frameOverflow ∨
    graph.Invariant ∧ graph.symbols.size + footprint.symbols < 2 ^ 29
  blocks : (∀ fault, fault.isInternal = true → fails fault) ∨
    graph.blocks.size + footprint.blocks < 2 ^ 32

/-- A graph in which a part of a program can be lowered, with the faults that may come of it. -/
structure Ready (fails : Fault → Prop) (words : Prop) (footprint : Footprint) (graph : Graph) :
    Prop where
  known : graph.HasBlock graph.current
  scoping : ∀ fault, fault.isScoping = true → fails fault
  roomy : (∀ fault, fails fault) ∨ words ∧ graph.Roomy fails footprint

/-- Where any fault may happen, a graph needs no room. -/
theorem ready_of_hasBlock (known : graph.HasBlock graph.current) (words : Prop)
    (footprint : Footprint) : graph.Ready (fun _ => True) words footprint :=
  ⟨known, fun _ _ => trivial, .inl fun _ => trivial⟩

/-- The construct at its start. -/
theorem Ready.building {words : Prop} {footprint : Footprint}
    (_ : graph.Ready fails words footprint) (defined : String → Bool) :
    Building defined words footprint graph [] [] footprint graph :=
  .refl defined words footprint graph

namespace Ready

variable {defined : String → Bool} {words others : Prop} {total piece rest : Footprint}
  {start : Graph} {names more : List String} {ids : List BlockId}
  (ready : start.Ready fails words total)

include ready

/-- What is ready for a construct is ready for the next part of it. -/
theorem part (building : Building defined words total start names ids (piece + rest) graph)
    (sub : words → others) : graph.Ready fails others piece := by
  refine ⟨building.hasBlock_current ready.known, ready.scoping, ready.roomy.imp_right ?_⟩
  rintro ⟨hold, formed, frame, blocks⟩
  have steps := building.steps formed hold
  have symbols_eq := building.symbols_eq
  have blocks_eq := building.blocks_eq
  rw [Footprint.symbols_add] at symbols_eq
  rw [Footprint.blocks_add] at blocks_eq
  refine ⟨sub hold, steps.wellFormed formed, frame.imp_right ?_, blocks.imp_right fun room => ?_⟩
  · exact fun ⟨kept, room⟩ => ⟨steps.invariant kept, by omega⟩
  · omega

theorem opened : (start.inScopes start.scopes.enter).Ready fails words total := by
  refine ⟨ready.known, ready.scoping, ready.roomy.imp_right ?_⟩
  rintro ⟨hold, formed, frame, blocks⟩
  refine ⟨hold, formed.step .opened, frame.imp_right ?_, blocks⟩
  exact fun ⟨kept, room⟩ => ⟨kept.step .opened, room⟩

section

variable (building : Building defined words total start names ids (.symbol + rest) graph)
include building

/-- A new temporary. -/
theorem giving_temporary :
    Giving fails (fun target next =>
      Building defined words total start names ids rest next ∧ next.HasSlot target)
      (temporary graph) := by
  refine .of_eq ?ok fun fault failed => ?fails
  case ok =>
    rintro ⟨target, next⟩ taken
    obtain ⟨can, rfl, rfl⟩ := temporary_eq_ok_iff.mp taken
    exact ⟨building.withTemporary can, hasSlot_placed _ graph.nextOffset graph⟩
  case fails =>
    rcases (ready.part building id).roomy with all | ⟨-, -, ⟨internal, full⟩ | ⟨kept, room⟩, -⟩
    · exact all fault
    · exact Outcome.of_eq_error (outcome_declareVariable (fun _ => internal _ rfl)
        (fun _ => internal _ rfl) fun _ => full) failed
    · rw [temporary_eq_ok_iff.mpr ⟨kept.canTakeTemporary room, rfl, rfl⟩] at failed
      cases failed

/-- A new variable. -/
theorem giving_declareVariable (word : words → isWord name = true) :
    Giving fails (fun slot next =>
      Building defined words total start (names ++ [name]) ids rest next ∧ next.HasSlot slot)
      (graph.declareVariable name .int).accepted := by
  refine .of_eq ?ok fun fault failed => ?fails
  case ok =>
    rintro ⟨slot, next⟩ declared
    obtain ⟨can, rfl, rfl⟩ := declareVariable_eq_ok_iff.mp declared
    exact ⟨building.declared can word, hasSlot_placed name graph.nextOffset graph⟩
  case fails =>
    rcases (ready.part building id).roomy with all | ⟨hold, -, ⟨internal, full⟩ | ⟨kept, room⟩, -⟩
    · exact all fault
    · exact (outcome_declareVariable (fun _ => internal _ rfl) (fun _ => internal _ rfl)
        fun _ => full).of_eq_error failed
    · have isVariable := isTemporary_of_isWord (word hold)
      have fits := kept.fits room
      exact (outcome_declareVariable
        (fun _ => ready.scoping _ (by simp [Fault.isScoping, isVariable]))
        (fun _ => ready.scoping _ (by simp [Fault.isScoping, isVariable]))
        fun tight => by simp [fits] at tight).of_eq_error failed

end

/-- The current block gets its exits and the next block of a construct is entered. -/
theorem outcome_enter
    (building : Building defined words total start names (id :: ids) rest graph)
    {change : BasicBlock → BasicBlock} :
    Outcome fails
      (fun next => graph.CanEnter id ∧ next = (graph.changed graph.current change).entered id)
      (graph.modifyBlock graph.current change >>= enterBlock id) := by
  refine .of_eq (fun next entered => modifyBlock_enterBlock_eq_ok_iff.mp entered) ?_
  intro fault failed
  rcases ready.roomy with all | ⟨hold, formed, -, blocks⟩
  · exact all fault
  have here := building.wellFormed formed hold
  rw [modifyBlock_eq_ok_iff.mpr ⟨here.hasBlock_current, rfl⟩, ok_bind] at failed
  obtain ⟨isEmitted, marked⟩ := isInternal_enterBlock
    (fun id member => hasBlock_changed.mpr (here.order_known id member)) failed
  rcases blocks with internal | room
  · exact internal fault marked
  · have blocks_eq := building.blocks_eq
    exact absurd isEmitted (building.outside formed hold (by omega) id List.mem_cons_self)

section Enter

variable {α : Type} {holds : α → Prop} {after : Graph → Except Fault α}
  (building : Building defined words total start names (id :: ids) rest graph)

include building

theorem outcome_jump {target : BlockId} (known : graph.HasBlock target) :
    Outcome fails (Building defined words total start names ids rest)
      (jumpTo target graph >>= enterBlock id) := by
  refine (ready.outcome_enter building).mono ?_
  rintro _ ⟨can, rfl⟩
  exact building.jumped known can

theorem outcome_jump_bind {target : BlockId} (known : graph.HasBlock target)
    (goesOn : ∀ next, Building defined words total start names ids rest next →
      Outcome fails holds (after next)) :
    Outcome fails holds (jumpTo target graph >>= fun linked => enterBlock id linked >>= after) := by
  rw [← bind_assoc]
  exact (ready.outcome_jump building known).bind goesOn

theorem outcome_branch {test : Slot} {onTrue onFalse : BlockId}
    (testKnown : start.WellFormed → words → graph.HasSlot test)
    (onTrueKnown : graph.HasBlock onTrue) (onFalseKnown : graph.HasBlock onFalse) :
    Outcome fails (Building defined words total start names ids rest)
      (branchTo test onTrue onFalse graph >>= enterBlock id) := by
  refine (ready.outcome_enter building).mono ?_
  rintro _ ⟨can, rfl⟩
  exact building.branched testKnown onTrueKnown onFalseKnown can

theorem outcome_branch_bind {test : Slot} {onTrue onFalse : BlockId}
    (testKnown : start.WellFormed → words → graph.HasSlot test)
    (onTrueKnown : graph.HasBlock onTrue) (onFalseKnown : graph.HasBlock onFalse)
    (goesOn : ∀ next, Building defined words total start names ids rest next →
      Outcome fails holds (after next)) :
    Outcome fails holds
      (branchTo test onTrue onFalse graph >>= fun linked => enterBlock id linked >>= after) := by
  rw [← bind_assoc]
  exact (ready.outcome_branch building testKnown onTrueKnown onFalseKnown).bind goesOn

end Enter

/-- A part of a construct that gives no value. -/
theorem outcome_part (building : Building defined words total start names ids (piece + rest) graph)
    (sub : words → others) {lower : Except Fault Graph}
    (lowers : graph.Ready fails others piece → Outcome fails (Built defined others piece more graph)
      lower) :
    Outcome fails (Building defined words total start (names ++ more) ids rest) lower :=
  (lowers (ready.part building sub)).mono fun _ built => building.andThen built fun _ => sub

end Ready

/-- A scope that was opened can be closed. -/
theorem Building.outcome_leaveScope {defined : String → Bool} {words : Prop} {total : Footprint}
    {names : List String} {inside : Graph}
    (built : Built defined words total names (graph.inScopes graph.scopes.enter) inside) :
    Outcome fails (Built defined words total [] graph) inside.leaveScope := by
  rw [leaveScope_eq_ok_iff.mpr ⟨_, built.addition.scopes.leave?_eq, rfl⟩]
  exact built.enclosed

end Graph

end SmallC
