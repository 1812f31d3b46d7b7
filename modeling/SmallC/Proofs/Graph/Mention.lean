import SmallC.Proofs.Graph.Extension
import SmallC.Proofs.Graph.Layout

/-!
# Where slots are mentioned

A slot is mentioned by the operands of instructions and by the tests of blocks.  A slot of a graph
that no variable in scope has is hidden: nothing that comes later can mention it unless it was kept
from before.  Quiet extensions of a graph mention no hidden slot and call no function whose result
does not exist.
-/

namespace SmallC.Graph

/-! ## Places -/

/-- The instruction at a number of a block. -/
def instructionAt? (graph : Graph) (place : BlockId × Nat) : Option Instruction :=
  (graph.blocks.get? place.1).bind (·.instructions[place.2]?)

/-- The slot that a block branches on. -/
def testOf? (graph : Graph) (id : BlockId) : Option Slot :=
  (graph.blocks.get? id).bind (·.test)

section Places

variable {graph : Graph} {place : BlockId × Nat} {id other : BlockId} {slot : Slot}
  {change : BasicBlock → BasicBlock}
  {instruction added : Instruction}

theorem instructionAt?_changed
    (keeps : ∀ block : BasicBlock, (change block).instructions = block.instructions) :
    (graph.changed id change).instructionAt? place = graph.instructionAt? place := by
  obtain ⟨other, number⟩ := place
  unfold instructionAt?
  by_cases same : other = id
  · subst same
    rw [get?_changed_self]
    cases graph.blocks.get? other with
    | none => rfl
    | some block => simp [keeps]
  · rw [get?_changed_of_ne same]

theorem testOf?_changed_self :
    (graph.changed id change).testOf? id =
      (graph.blocks.get? id).bind fun block => (change block).test := by
  rw [testOf?, get?_changed_self, Option.bind_map]
  rfl

theorem testOf?_changed_of_ne (different : other ≠ id) :
    (graph.changed id change).testOf? other = graph.testOf? other := by
  rw [testOf?, get?_changed_of_ne different, testOf?]

/-- A new instruction stands at one place. -/
theorem instructionAt?_extended
    (found : (graph.extended added).instructionAt? place = some instruction) :
    graph.instructionAt? place = some instruction ∨
      place = (graph.current, graph.position) ∧ instruction = added := by
  obtain ⟨id, number⟩ := place
  unfold instructionAt? at found ⊢
  by_cases same : id = graph.current
  · subst same
    rw [get?_changed_self] at found
    unfold position
    cases blockFound : graph.blocks.get? graph.current with
    | none =>
      rw [blockFound] at found
      cases found
    | some block =>
      simp only [blockFound, Option.map_some, Option.bind_some, List.getElem?_append] at found
      split at found
      · exact .inl found
      · rw [List.getElem?_singleton, Option.ite_none_right_eq_some] at found
        obtain ⟨atEnd, isAdded⟩ := found
        refine .inr ⟨?_, (Option.some.inj isAdded).symm⟩
        rw [Option.elim_some, Prod.mk.injEq]
        exact ⟨rfl, by omega⟩
  · rw [get?_changed_of_ne same] at found
    exact .inl found

theorem testOf?_extended (graph : Graph) (added : Instruction) (id : BlockId) :
    (graph.extended added).testOf? id = graph.testOf? id := by
  by_cases same : id = graph.current
  · subst same
    exact testOf?_changed_self
  · exact testOf?_changed_of_ne same

theorem testOf?_jumping {target : BlockId} (found : (graph.jumping target).testOf? id = some slot) :
    graph.testOf? id = some slot := by
  by_cases same : id = graph.current
  · subst same
    rw [testOf?_changed_self] at found
    cases blockFound : graph.blocks.get? graph.current <;> simp [blockFound] at found
  · rwa [testOf?_changed_of_ne same] at found

theorem testOf?_branching {test : Slot} {onTrue onFalse : BlockId}
    (found : (graph.branching test onTrue onFalse).testOf? id = some slot) :
    graph.testOf? id = some slot ∨ slot = test := by
  by_cases same : id = graph.current
  · subst same
    rw [testOf?_changed_self] at found
    cases blockFound : graph.blocks.get? graph.current with
    | none => simp [blockFound] at found
    | some block =>
      rw [blockFound] at found
      exact .inr (Option.some.inj found).symm
  · rw [testOf?_changed_of_ne same] at found
    exact .inl found

theorem instructionAt?_created {tag : String}
    (found : (graph.created tag).instructionAt? place = some instruction) :
    graph.instructionAt? place = some instruction := by
  obtain ⟨block, blockFound, here⟩ := Option.bind_eq_some_iff.mp found
  rcases get?_created blockFound with old | ⟨label, rfl⟩
  · exact Option.bind_eq_some_iff.mpr ⟨block, old, here⟩
  · simp [BasicBlock.new] at here

theorem testOf?_created {tag : String} (found : (graph.created tag).testOf? id = some slot) :
    graph.testOf? id = some slot := by
  obtain ⟨block, blockFound, here⟩ := Option.bind_eq_some_iff.mp found
  rcases get?_created blockFound with old | ⟨label, rfl⟩
  · exact Option.bind_eq_some_iff.mpr ⟨block, old, here⟩
  · cases here

end Places

/-! ## Graphs that mention what they have -/

/-- A graph that is laid out and mentions only slots that it has. -/
structure Tidy (graph : Graph) : Prop where
  laid : graph.LaidOut
  scopes_known : ∀ entry ∈ graph.scopes.all.flatten, graph.HasSlot entry.2
  operands_known : ∀ place instruction, graph.instructionAt? place = some instruction →
    ∀ slot, .slot slot ∈ instruction.operands → graph.HasSlot slot
  tests_known : ∀ id slot, graph.testOf? id = some slot → graph.HasSlot slot

/-- A slot that the graph has and that no variable in scope has. -/
structure Hidden (graph : Graph) (slot : Slot) : Prop where
  known : graph.HasSlot slot
  unnamed : ∀ entry ∈ graph.scopes.named.all.flatten, entry.2 ≠ slot

variable {graph middle next : Graph} {slot : Slot} {name : String}

theorem Tidy.not_hasSlot_nextKey (tidy : graph.Tidy) : ¬graph.HasSlot graph.symbols.nextKey := by
  rw [HasSlot, tidy.laid.index_nextKey]
  exact Nat.lt_irrefl _

theorem Tidy.hasSlot_of_lookup? (tidy : graph.Tidy) (found : graph.scopes.lookup? name = some slot) :
    graph.HasSlot slot :=
  tidy.scopes_known _ (Scopes.mem_of_lookup? found)

/-- A variable in scope is not hidden. -/
theorem not_hidden_of_lookup? (word : isWord name = true)
    (found : graph.scopes.lookup? name = some slot) : ¬graph.Hidden slot := by
  rw [← Scopes.lookup?_named _ (isTemporary_of_isWord word)] at found
  exact fun hidden => hidden.unnamed _ (Scopes.mem_of_lookup? found) rfl

theorem not_hidden_of_not_hasSlot (isNew : ¬graph.HasSlot slot) : ¬graph.Hidden slot :=
  fun hidden => isNew hidden.known

/-! ## Quiet extensions -/

/-- A slot of a later graph that was not hidden before. -/
structure Offers (graph next : Graph) (slot : Slot) : Prop where
  known : next.HasSlot slot
  shown : ¬graph.Hidden slot

/-- An instruction that may be added to a graph without mentioning a hidden slot and without calling
one of the given functions. -/
structure QuietInstruction (isVoid : String → Bool) (graph : Graph) (instruction : Instruction) :
    Prop where
  operands : ∀ slot, .slot slot ∈ instruction.operands → ¬graph.Hidden slot
  calls : ∀ target function arguments, instruction = .call target function arguments →
    isVoid function = false

/-- A later graph in which no slot is mentioned more often that was hidden before, and none of the
given functions is called more often. -/
structure Quiet (isVoid : String → Bool) (graph next : Graph) : Prop where
  tidy : next.Tidy
  size_le : graph.symbols.size ≤ next.symbols.size
  hidden : ∀ slot, graph.Hidden slot → next.Hidden slot
  instructions : ∀ place instruction, next.instructionAt? place = some instruction →
    graph.instructionAt? place = some instruction ∨ QuietInstruction isVoid graph instruction
  tests : ∀ id slot, next.testOf? id = some slot → graph.testOf? id = some slot ∨ ¬graph.Hidden slot

namespace Quiet

variable {isVoid : String → Bool}

theorem refl (tidy : graph.Tidy) : Quiet isVoid graph graph :=
  ⟨tidy, Nat.le_refl _, fun _ => id, fun _ _ => .inl, fun _ _ => .inl⟩

/-- What is not hidden in a later graph was not hidden before. -/
theorem shown (quiet : Quiet isVoid graph middle) (later : ¬middle.Hidden slot) :
    ¬graph.Hidden slot :=
  fun hidden => later (quiet.hidden slot hidden)

theorem hasSlot (quiet : Quiet isVoid graph next) (known : graph.HasSlot slot) :
    next.HasSlot slot :=
  Nat.lt_of_lt_of_le known quiet.size_le

theorem trans (quiet : Quiet isVoid graph middle) (further : Quiet isVoid middle next) :
    Quiet isVoid graph next where
  tidy := further.tidy
  size_le := Nat.le_trans quiet.size_le further.size_le
  hidden slot isHidden := further.hidden slot (quiet.hidden slot isHidden)
  instructions := by
    intro place instruction found
    rcases further.instructions place instruction found with old | ⟨operands, calls⟩
    · exact quiet.instructions place instruction old
    · exact .inr ⟨fun slot member => quiet.shown (operands slot member), calls⟩
  tests := by
    intro id slot found
    rcases further.tests id slot found with old | shown
    · exact quiet.tests id slot old
    · exact .inr (quiet.shown shown)

theorem offers (quiet : Quiet isVoid graph middle) (offers : Offers middle next slot) :
    Offers graph next slot :=
  ⟨offers.known, quiet.shown offers.shown⟩

end Quiet

theorem Offers.later {isVoid : String → Bool} (offers : Offers graph middle slot)
    (quiet : Quiet isVoid middle next) : Offers graph next slot :=
  ⟨quiet.hasSlot offers.known, offers.shown⟩

theorem Offers.extended (offers : Offers graph next slot) (instruction : Instruction) :
    Offers graph (next.extended instruction) slot :=
  ⟨offers.known, offers.shown⟩

/-- The slots that a well-formed instruction mentions are of the given kind. -/
theorem of_mem_operands {slots : Slot → Prop} {blocks : BlockId → Prop} {instruction : Instruction}
    (formed : instruction.WellFormed slots blocks) (member : .slot slot ∈ instruction.operands) :
    slots slot := by
  cases formed with
  | loadConstant value target =>
    simp only [Instruction.loadConstant, List.mem_cons, Operand.slot.injEq, reduceCtorEq,
      List.not_mem_nil, or_false] at member
    exact member ▸ target
  | copy target source =>
    simp only [Instruction.copy, List.mem_cons, Operand.slot.injEq, List.not_mem_nil,
      or_false] at member
    rcases member with rfl | rfl <;> assumption
  | arithmetic op target left right =>
    simp only [Instruction.arithmetic, List.mem_cons, Operand.slot.injEq, List.not_mem_nil,
      or_false] at member
    rcases member with rfl | rfl | rfl <;> assumption
  | compare op target left right =>
    simp only [Instruction.compare, List.mem_cons, Operand.slot.injEq, List.not_mem_nil,
      or_false] at member
    rcases member with rfl | rfl | rfl <;> assumption
  | unary op target =>
    simp only [Instruction.unary, List.mem_singleton, Operand.slot.injEq] at member
    exact member ▸ target
  | step op target =>
    simp only [Instruction.step, List.mem_singleton, Operand.slot.injEq] at member
    exact member ▸ target
  | call function target arguments =>
    simp only [Instruction.call, List.mem_cons, Operand.slot.injEq, reduceCtorEq, false_or,
      List.mem_map, exists_eq_right] at member
    rcases member with rfl | isArgument
    · exact target
    · exact arguments slot isArgument
  | ret value =>
    refine value slot ?_
    simpa [Instruction.ret, eq_comm] using member
  | jump target => simp [Instruction.jump] at member

namespace Quiet

variable {isVoid : String → Bool}

section

variable (quiet : Quiet isVoid graph middle)
include quiet

/-- A change of blocks that adds a quiet instruction or a test at most. -/
theorem rewritten (laid : next.LaidOut) (symbols_eq : next.symbols = middle.symbols)
    (scopes_eq : next.scopes = middle.scopes)
    (instructions : ∀ place instruction, next.instructionAt? place = some instruction →
      middle.instructionAt? place = some instruction ∨
        instruction.WellFormed (Offers graph middle) (fun _ => True) ∧
          QuietInstruction isVoid graph instruction)
    (tests : ∀ id slot, next.testOf? id = some slot →
      middle.testOf? id = some slot ∨ Offers graph middle slot) : Quiet isVoid graph next := by
  have known_iff (slot : Slot) : next.HasSlot slot ↔ middle.HasSlot slot := by
    rw [HasSlot, HasSlot, symbols_eq]
  refine ⟨⟨laid, ?scopes, ?operands, ?known⟩, symbols_eq ▸ quiet.size_le, ?hidden, ?written,
    ?tested⟩
  case scopes =>
    intro entry member
    rw [scopes_eq] at member
    exact (known_iff _).mpr (quiet.tidy.scopes_known entry member)
  case operands =>
    intro place instruction found slot member
    rw [known_iff]
    rcases instructions place instruction found with old | ⟨formed, -⟩
    · exact quiet.tidy.operands_known place instruction old slot member
    · exact (of_mem_operands formed member).known
  case known =>
    intro id slot found
    rw [known_iff]
    rcases tests id slot found with old | offers
    · exact quiet.tidy.tests_known id slot old
    · exact offers.known
  case hidden =>
    intro slot hidden
    obtain ⟨known, unnamed⟩ := quiet.hidden slot hidden
    exact ⟨(known_iff slot).mpr known, scopes_eq ▸ unnamed⟩
  case written =>
    intro place instruction found
    rcases instructions place instruction found with old | ⟨-, isQuiet⟩
    · exact quiet.instructions place instruction old
    · exact .inr isQuiet
  case tested =>
    intro id slot found
    rcases tests id slot found with old | offers
    · exact quiet.tests id slot old
    · exact .inr offers.shown

theorem extended {instruction : Instruction}
    (formed : instruction.WellFormed (Offers graph middle) fun _ => True)
    (calls : ∀ target function arguments, instruction = .call target function arguments →
      isVoid function = false) : Quiet isVoid graph (middle.extended instruction) := by
  have isQuiet : QuietInstruction isVoid graph instruction :=
    ⟨fun slot member => (of_mem_operands formed member).shown, calls⟩
  refine quiet.rewritten { quiet.tidy.laid with } rfl rfl ?_ ?_
  · intro place added found
    rcases instructionAt?_extended found with old | ⟨-, rfl⟩
    · exact .inl old
    · exact .inr ⟨formed, isQuiet⟩
  · intro id slot found
    rw [testOf?_extended] at found
    exact .inl found

theorem created (tag : String) : Quiet isVoid graph (middle.created tag) :=
  quiet.rewritten { quiet.tidy.laid with } rfl rfl
    (fun _ _ found => .inl (instructionAt?_created found))
    (fun _ _ found => .inl (testOf?_created found))

theorem createdAll (tags : List String) : Quiet isVoid graph (middle.createdAll tags) := by
  induction tags generalizing middle with
  | nil => exact quiet
  | cons tag tags ih => exact ih (quiet.created tag)

theorem jumped (target id : BlockId) : Quiet isVoid graph (middle.jumped target id) := by
  refine quiet.rewritten { quiet.tidy.laid with } rfl rfl ?_ ?_
  · intro place instruction found
    have unchanged : (middle.jumping target).instructionAt? place = middle.instructionAt? place :=
      instructionAt?_changed fun _ => rfl
    exact .inl (unchanged ▸ found)
  · intro other slot found
    exact .inl (testOf?_jumping found)

theorem branched {test : Slot} (offers : Offers graph middle test) (onTrue onFalse id : BlockId) :
    Quiet isVoid graph (middle.branched test onTrue onFalse id) := by
  refine quiet.rewritten { quiet.tidy.laid with } rfl rfl ?_ ?_
  · intro place instruction found
    have unchanged : (middle.branching test onTrue onFalse).instructionAt? place =
        middle.instructionAt? place :=
      instructionAt?_changed fun _ => rfl
    exact .inl (unchanged ▸ found)
  · intro other slot found
    rcases testOf?_branching found with old | rfl
    · exact .inl old
    · exact .inr offers

/-- A change of symbols or scopes that hides no less. -/
theorem beside (laid : next.LaidOut) (blocks_eq : next.blocks = middle.blocks)
    (size_le : middle.symbols.size ≤ next.symbols.size)
    (scopes_known : ∀ entry ∈ next.scopes.all.flatten, next.HasSlot entry.2)
    (unnamed : ∀ slot, middle.Hidden slot → ∀ entry ∈ next.scopes.named.all.flatten,
      entry.2 ≠ slot) : Quiet isVoid graph next := by
  have known (slot : Slot) (isKnown : middle.HasSlot slot) : next.HasSlot slot :=
    Nat.lt_of_lt_of_le isKnown size_le
  refine ⟨⟨laid, scopes_known, ?operands, ?tests⟩, Nat.le_trans quiet.size_le size_le, ?hidden,
    ?written, ?tested⟩
  case operands =>
    intro place instruction found slot member
    rw [instructionAt?, blocks_eq] at found
    exact known slot (quiet.tidy.operands_known place instruction found slot member)
  case tests =>
    intro id slot found
    rw [testOf?, blocks_eq] at found
    exact known slot (quiet.tidy.tests_known id slot found)
  case hidden =>
    intro slot hidden
    have wasHidden := quiet.hidden slot hidden
    exact ⟨known slot wasHidden.known, unnamed slot wasHidden⟩
  case written =>
    intro place instruction found
    rw [instructionAt?, blocks_eq] at found
    exact quiet.instructions place instruction found
  case tested =>
    intro id slot found
    rw [testOf?, blocks_eq] at found
    exact quiet.tests id slot found

end

/-- A new symbol in scope is known under its slot. -/
theorem scopes_known_placed (tidy : graph.Tidy) (name : String) (offset : Int) :
    ∀ entry ∈ (graph.placed name offset).scopes.all.flatten,
      (graph.placed name offset).HasSlot entry.2 := by
  show ∀ entry ∈ (name, graph.symbols.nextKey) :: graph.scopes.all.flatten, _
  rw [List.forall_mem_cons]
  refine ⟨hasSlot_placed name offset graph, fun entry member => ?_⟩
  have known := tidy.scopes_known entry member
  simp only [HasSlot, placed_symbols, Table.size_push]
  exact Nat.lt_succ_of_lt known

section

variable (quiet : Quiet isVoid graph middle)
include quiet

theorem declared (word : isWord name = true) (can : middle.CanDeclare name) :
    Quiet isVoid graph (middle.declared name) := by
  refine quiet.beside (quiet.tidy.laid.declared name can.fits) rfl ?size
    (scopes_known_placed quiet.tidy name middle.nextOffset) ?unnamed
  case size => simp
  case unnamed =>
    intro slot hidden
    rw [declared_scopes, placed_scopes, Scopes.named_declare _ (isTemporary_of_isWord word)]
    show ∀ entry ∈ (name, middle.symbols.nextKey) :: middle.scopes.named.all.flatten, _
    rw [List.forall_mem_cons]
    refine ⟨?_, hidden.unnamed⟩
    rintro rfl
    exact quiet.tidy.not_hasSlot_nextKey hidden.known

theorem withTemporary (can : middle.CanTakeTemporary) :
    Quiet isVoid graph middle.withTemporary := by
  refine quiet.beside { quiet.tidy.laid.declared _ can.fits with } rfl ?size
    (scopes_known_placed quiet.tidy _ middle.nextOffset) ?unnamed
  case size => simp
  case unnamed =>
    intro slot hidden
    rw [withTemporary_scopes, placed_scopes,
      Scopes.named_declare_temporary _ (isTemporary_temporaryName _)]
    exact hidden.unnamed

theorem opened : Quiet isVoid graph (middle.inScopes middle.scopes.enter) :=
  quiet.beside { quiet.tidy.laid with } rfl (Nat.le_refl _) quiet.tidy.scopes_known
    fun _ hidden => hidden.unnamed

theorem closed {outer : Scopes Slot} (left : middle.scopes.leave? = some outer) :
    Quiet isVoid graph (middle.inScopes outer) := by
  refine quiet.beside { quiet.tidy.laid with } rfl (Nat.le_refl _) ?known ?unnamed
  case known =>
    intro entry member
    refine quiet.tidy.scopes_known entry ?_
    rw [Scopes.all_of_leave? left, List.flatten_cons]
    exact List.mem_append_right _ member
  case unnamed =>
    intro slot hidden entry member
    have namedLeft : middle.scopes.named.leave? = some outer.named := by
      rw [Scopes.leave?_named, left, Option.map_some]
    refine hidden.unnamed entry ?_
    rw [Scopes.all_of_leave? namedLeft, List.flatten_cons]
    exact List.mem_append_right _ member

end

end Quiet

/-! ## Results that nothing looks at -/

/-- A call whose target is mentioned nowhere else: not by the arguments of the call, not by another
instruction and not by the test of a block. -/
structure Unobserved (graph : Graph) (place : BlockId × Nat) (target : Slot)
    (arguments : List Slot) : Prop where
  arguments : target ∉ arguments
  instructions : ∀ other instruction, graph.instructionAt? other = some instruction →
    other ≠ place → .slot target ∉ instruction.operands
  tests : ∀ id, graph.testOf? id ≠ some target

/-- A graph in which no result of the given functions is looked at. -/
structure Silent (isVoid : String → Bool) (graph : Graph) : Prop where
  tidy : graph.Tidy
  calls : ∀ place target function arguments,
    graph.instructionAt? place = some (.call target function arguments) →
      isVoid function = true → graph.Hidden target ∧ graph.Unobserved place target arguments

section Silent

variable {isVoid : String → Bool}

/-- A call of one of the given functions in a quiet extension was there before. -/
theorem Quiet.call_old (quiet : Quiet isVoid graph next) {place : BlockId × Nat} {target : Slot}
    {function : String} {arguments : List Slot}
    (found : next.instructionAt? place = some (.call target function arguments))
    (void : isVoid function = true) :
    graph.instructionAt? place = some (.call target function arguments) := by
  rcases quiet.instructions place _ found with old | ⟨-, calls⟩
  · exact old
  · rw [calls target function arguments rfl] at void
    cases void

theorem Silent.quiet (silent : Silent isVoid graph) (quiet : Quiet isVoid graph next) :
    Silent isVoid next := by
  refine ⟨quiet.tidy, fun place target function arguments found void => ?_⟩
  obtain ⟨hidden, once⟩ :=
    silent.calls place target function arguments (quiet.call_old found void) void
  refine ⟨quiet.hidden target hidden, once.arguments, ?instructions, ?tests⟩
  case instructions =>
    intro other instruction otherFound different
    rcases quiet.instructions other instruction otherFound with old | ⟨operands, -⟩
    · exact once.instructions other instruction old different
    · exact fun member => operands target member hidden
  case tests =>
    intro id tested
    rcases quiet.tests id target tested with old | shown
    · exact once.tests id old
    · exact shown hidden

/-- A graph that mentions a slot nowhere. -/
structure Unmentioned (graph : Graph) (slot : Slot) : Prop where
  instructions : ∀ place instruction, graph.instructionAt? place = some instruction →
    .slot slot ∉ instruction.operands
  tests : ∀ id, graph.testOf? id ≠ some slot

/-- A tidy graph does not mention a slot that it does not have. -/
theorem Tidy.unmentioned (tidy : graph.Tidy) (isNew : ¬graph.HasSlot slot) :
    graph.Unmentioned slot :=
  ⟨fun place instruction found member =>
      isNew (tidy.operands_known place instruction found slot member),
    fun id tested => isNew (tidy.tests_known id slot tested)⟩

theorem Unmentioned.quiet (unmentioned : graph.Unmentioned slot) (hidden : graph.Hidden slot)
    (quiet : Quiet isVoid graph next) : next.Unmentioned slot := by
  constructor
  · intro place instruction found
    rcases quiet.instructions place instruction found with old | ⟨operands, -⟩
    · exact unmentioned.instructions place instruction old
    · exact fun member => operands slot member hidden
  · intro id tested
    rcases quiet.tests id slot tested with old | shown
    · exact unmentioned.tests id old
    · exact shown hidden

/-- A call into a new slot that was not mentioned before, with arguments that were not hidden. -/
theorem Silent.called (silent : Silent isVoid graph) (quiet : Quiet isVoid graph middle)
    {target : Slot} (isNew : ¬graph.HasSlot target) (hidden : middle.Hidden target)
    (unmentioned : middle.Unmentioned target) {arguments : List Slot}
    (offers : ∀ argument ∈ arguments, Offers graph middle argument) (apart : target ∉ arguments)
    (function : String) : Silent isVoid (middle.extended (.call target function arguments)) := by
  have mentioned {slot : Slot}
      (member : .slot slot ∈ (Instruction.call target function arguments).operands) :
      slot = target ∨ slot ∈ arguments := by
    simpa [Instruction.call] using member
  refine ⟨⟨{ quiet.tidy.laid with }, quiet.tidy.scopes_known, ?operands, ?known⟩, ?calls⟩
  case operands =>
    intro place instruction found slot member
    rcases instructionAt?_extended found with old | ⟨-, rfl⟩
    · exact quiet.tidy.operands_known place instruction old slot member
    · rcases mentioned member with rfl | isArgument
      · exact hidden.known
      · exact (offers slot isArgument).known
  case known =>
    intro id slot tested
    rw [testOf?_extended] at tested
    exact quiet.tidy.tests_known id slot tested
  case calls =>
    intro place other otherFunction otherArguments found void
    rcases instructionAt?_extended found with old | ⟨rfl, isNewCall⟩
    · -- The call was there before, so its target was hidden and is not an argument now.
      obtain ⟨otherHidden, once⟩ := (silent.quiet quiet).calls place other _ _ old void
      have wasHidden := (silent.calls place other _ _ (quiet.call_old old void) void).1
      refine ⟨⟨otherHidden.known, otherHidden.unnamed⟩, once.arguments, ?_, ?_⟩
      · intro elsewhere instruction foundElsewhere different
        rcases instructionAt?_extended foundElsewhere with oldElsewhere | ⟨-, rfl⟩
        · exact once.instructions elsewhere instruction oldElsewhere different
        · intro member
          rcases mentioned member with rfl | isArgument
          · exact isNew wasHidden.known
          · exact (offers other isArgument).shown wasHidden
      · intro id tested
        rw [testOf?_extended] at tested
        exact once.tests id tested
    · obtain ⟨rfl, rfl, rfl⟩ : other = target ∧ otherFunction = function ∧
          otherArguments = arguments := by
        simpa [Instruction.call, List.map_inj_right] using isNewCall
      refine ⟨⟨hidden.known, hidden.unnamed⟩, apart, ?_, ?_⟩
      · intro elsewhere instruction foundElsewhere different
        rcases instructionAt?_extended foundElsewhere with oldElsewhere | ⟨rfl, -⟩
        · exact unmentioned.instructions elsewhere instruction oldElsewhere
        · exact absurd rfl different
      · intro id tested
        rw [testOf?_extended] at tested
        exact unmentioned.tests id tested

end Silent

end SmallC.Graph
