import SmallC.Proofs.Emission.OneLine
import SmallC.Proofs.Simulation.Program

/-!
# Closed assembly

The assembly of a program defines no label twice, whatever its functions are called.  Jumps stay
inside their function, and a call leaves the program exactly when the program does not define the
function.
-/

namespace SmallC

/-- A graph as lowering leaves it. -/
structure Graph.Finished (defined : String → Bool) (graph : Graph) : Prop where
  formed : graph.WellFormed
  complete : graph.Complete
  named : graph.Named defined

namespace Assembly

open SmallC.Graph Line

variable {defined : String → Bool} {options : Options} {graph : Graph} {lines : List Line}

/-! ## Jumps and calls -/

/-- Code that neither jumps nor calls. -/
def straight (code : List Instr) : Bool :=
  code.all fun instr => instr.target?.isNone && instr.callee?.isNone

@[simp]
theorem straight_append (code more : List Instr) :
    straight (code ++ more) = (straight code && straight more) :=
  List.all_append

theorem straight_pushCode (slots : List Slot) : straight (pushCode graph slots) = true := by
  simp [pushCode, straight, Instr.target?, Instr.callee?]

/-- Code that has one straight instruction for each register and slot is straight. -/
theorem straight_zipWith {instr : Register → Slot → Instr}
    (each : ∀ register slot, straight [instr register slot] = true) (registers : List Register)
    (slots : List Slot) : straight (List.zipWith instr registers slots) = true := by
  induction registers generalizing slots with
  | nil => rfl
  | cons register registers ih =>
    cases slots with
    | nil => rfl
    | cons first others =>
      rw [List.zipWith_cons_cons, ← List.singleton_append, straight_append, each, ih]
      rfl

theorem straight_loadCode (registers : List Register) (slots : List Slot) :
    straight (loadCode graph registers slots) = true :=
  straight_zipWith (fun _ _ => rfl) registers slots

theorem straight_spillCode (registers : List Register) (slots : List Slot) :
    straight (spillCode graph registers slots) = true :=
  straight_zipWith (fun _ _ => rfl) registers slots

theorem straight_passCode (arguments : List Slot) : straight (passCode graph arguments) = true := by
  unfold passCode
  simp only [straight_append, straight_pushCode, straight_loadCode]
  split <;> rfl

theorem straight_takeCode (target : Slot) (arguments : List Slot) :
    straight (takeCode graph target arguments) = true := by
  unfold takeCode
  simp only [straight_append]
  split <;> rfl

theorem straight_prologue (bytes : Nat) : straight (prologue bytes) = true := by
  unfold prologue
  simp only [straight_append]
  split <;> rfl

theorem straight_epilogue : straight epilogue = true :=
  rfl

variable {instr : Instr}

/-- Straight code has neither targets nor callees. -/
theorem leads_nowhere {code : List Instr} (isStraight : straight code = true)
    (member : instr ∈ code) : instr.target? = none ∧ instr.callee? = none := by
  simpa using List.all_eq_true.mp isStraight instr member

/-- Where the code of an instruction can go: to the block of a jump, or into a called function. -/
theorem CodeOf.leads {instruction : Instruction} {code : List Instr}
    (codeOf : CodeOf graph instruction code) (member : instr ∈ code) :
    (∀ label ∈ instr.target?, ∃ target, instruction = .jump target ∧
      label = graph.labelAt target) ∧
    ∀ function ∈ instr.callee?, ∃ target arguments,
      instruction = .call target function arguments := by
  have ofStraight {code : List Instr} (isStraight : straight code = true) (member : instr ∈ code) :
      (∀ label ∈ instr.target?, ∃ target, instruction = .jump target ∧
        label = graph.labelAt target) ∧
      ∀ function ∈ instr.callee?, ∃ target arguments,
        instruction = .call target function arguments := by
    obtain ⟨noTarget, noCallee⟩ := leads_nowhere isStraight member
    simp [noTarget, noCallee]
  cases codeOf with
  | loadConstant target value | copy target source => exact ofStraight rfl member
  | arithmetic op target left right => exact ofStraight (by cases op <;> rfl) member
  | compare op target left right => exact ofStraight rfl member
  | unary op target | step op target => exact ofStraight (by cases op <;> rfl) member
  | call target function arguments =>
    rcases List.mem_append.mp member with passing | rest
    · exact ofStraight (straight_passCode arguments) passing
    · rcases List.mem_cons.mp rest with rfl | taking
      · exact ⟨nofun, fun _ called => ⟨target, arguments, by cases called; rfl⟩⟩
      · exact ofStraight (straight_takeCode target arguments) taking
  | ret value =>
    rcases List.mem_append.mp member with loading | leaving
    · obtain ⟨slot, -, rfl⟩ := List.mem_map.mp loading
      exact ⟨nofun, nofun⟩
    · exact ofStraight straight_epilogue leaving
  | jump target =>
    rw [List.mem_singleton.mp member]
    exact ⟨fun _ jumped => ⟨target, rfl, by cases jumped; rfl⟩, nofun⟩

/-- Where the exit of a block can go. -/
theorem leads_exitCode {terminator : Terminator}
    (formed : terminator.WellFormed graph.HasSlot (· ∈ graph.order))
    (member : instr ∈ exitCode graph terminator) :
    (∀ label ∈ instr.target?, label ∈ graph.order.map graph.labelAt) ∧ instr.callee? = none := by
  have leads {target : BlockId} (emitted : target ∈ graph.order) :
      graph.labelAt target ∈ graph.order.map graph.labelAt :=
    List.mem_map_of_mem emitted
  cases terminator with
  | ret =>
    obtain ⟨noTarget, noCallee⟩ := leads_nowhere straight_epilogue member
    simp [noTarget, noCallee]
  | jump target =>
    rw [List.mem_singleton.mp member]
    exact ⟨fun _ jumped => by cases jumped; exact leads formed, rfl⟩
  | branch test onTrue onFalse =>
    simp only [exitCode, List.mem_cons, List.not_mem_nil, or_false] at member
    rcases member with rfl | rfl | rfl
    · exact ⟨fun _ jumped => (by cases jumped), rfl⟩
    · exact ⟨fun _ jumped => by cases jumped; exact leads formed.2.2, rfl⟩
    · exact ⟨fun _ jumped => by cases jumped; exact leads formed.2.1, rfl⟩

/-! ## Functions -/

/-- Where an instruction in the lines of a function can go. -/
theorem leads_emitFunction (finished : graph.Finished defined)
    (emitted : emitFunction options graph = .ok lines) (member : .instr instr ∈ lines) :
    (∀ label ∈ instr.target?, label ∈ graph.order.map graph.labelAt) ∧
      ∀ function ∈ instr.callee?, ∃ name, isWord name = true ∧
        function = Lowering.callTarget defined name := by
  have ofMap {code : List Instr} (member : Line.instr instr ∈ code.map .instr) : instr ∈ code := by
    simpa using member
  obtain ⟨blocks, blocksEmitted, rfl⟩ := (emitFunction_eq_ok_iff finished.formed).mp emitted
  rcases List.mem_append.mp member with before | inBlocks
  · have entering : instr ∈ entryCode graph := by
      simpa [functionHeader] using before
    have isStraight : straight (entryCode graph) = true := by
      simp [entryCode, straight_prologue, straight_spillCode]
    obtain ⟨noTarget, noCallee⟩ := leads_nowhere isStraight entering
    simp [noTarget, noCallee]
  obtain ⟨id, -, block, code, exit, found, blockLines, isLabel | inCode | inExit⟩ :=
    mem_emitBlocks blocksEmitted inBlocks
  · cases isLabel
  · obtain ⟨instruction, present, listing, code, instructionLines, inComment | inCode⟩ :=
      mem_emitInstructions blockLines.code_eq inCode
    · cases eq_of_mem_commentLine inComment
    have instructionFormed :=
      (finished.formed.blocks_formed id block found).instructions instruction present
    obtain ⟨jumps, calls⟩ :=
      (codeOf_of_emitInstruction instructionFormed instructionLines.code_eq).leads (ofMap inCode)
    constructor
    · intro label jumped
      obtain ⟨target, rfl, rfl⟩ := jumps label jumped
      have refers := finished.complete.operands id block found _ present (.label target)
        (List.mem_singleton_self _)
      exact List.mem_map_of_mem refers
    · intro function called
      obtain ⟨target, arguments, rfl⟩ := calls function called
      obtain ⟨otherTarget, name, others, word, instruction_eq⟩ :=
        finished.named.calls id block found _ present rfl
      simp only [Instruction.call, Instruction.mk.injEq, List.cons.injEq,
        Operand.function.injEq] at instruction_eq
      exact ⟨name, word, instruction_eq.2.2.1⟩
  · obtain ⟨terminator, terminator_eq, terminatorFormed⟩ := finished.complete.exits id block found
    have known := terminatorFormed.mono (fun _ known => known) finished.formed.order_known
    have exit_eq := blockLines.exit_eq
    rw [terminator_eq, ok_bind, emitTerminator_eq known] at exit_eq
    cases exit_eq
    obtain ⟨jumps, noCallee⟩ := leads_exitCode terminatorFormed (ofMap inExit)
    exact ⟨jumps, by simp [noCallee]⟩

/-- The lines of a function have no line breaks. -/
theorem oneLine_emitFunction (finished : graph.Finished defined)
    (emitted : emitFunction options graph = .ok lines) :
    ∀ line ∈ lines, OneLine line.text := by
  have legible := finished.named.legible finished.formed
  have nameLine : OneLine graph.name := oneLine_of_graphic legible.name.graphic
  have indent : OneLine "    " := by decide
  have labelsLine (label : String) (isLabel : label ∈ graph.order.map graph.labelAt) :
      OneLine label := by
    obtain ⟨id, isEmitted, rfl⟩ := List.mem_map.mp isLabel
    obtain ⟨block, found⟩ := exists_block (finished.formed.order_known id isEmitted)
    rw [labelAt_of_get? found]
    exact oneLine_of_graphic (legible.labels id block found).graphic
  have instrsLine {code : List Instr} {line : Line} (inLines : line ∈ lines)
      (inCode : line ∈ code.map .instr) : OneLine line.text := by
    obtain ⟨instr, -, rfl⟩ := List.mem_map.mp inCode
    obtain ⟨jumps, calls⟩ := leads_emitFunction finished emitted inLines
    refine oneLine_append.mpr ⟨indent, oneLine_instr_text ?_ ?_⟩
    · exact fun label jumped => labelsLine label (jumps label jumped)
    · intro function called
      obtain ⟨name, word, rfl⟩ := calls function called
      exact oneLine_of_graphic (Text.visible_of_isSymbol (isSymbol_callTarget defined word)).graphic
  intro line member
  obtain ⟨blocks, blocksEmitted, rfl⟩ := (emitFunction_eq_ok_iff finished.formed).mp emitted
  rcases List.mem_append.mp member with before | inBlocks
  · rcases List.mem_append.mp before with inHeader | entering
    · simp only [functionHeader, List.mem_cons, List.not_mem_nil, or_false] at inHeader
      rcases inHeader with rfl | rfl | rfl
      · exact oneLine_append.mpr ⟨indent, oneLine_append.mpr ⟨by decide, nameLine⟩⟩
      · simp only [Line.text, oneLine_append]
        exact ⟨indent, ⟨by decide, nameLine⟩, by decide⟩
      · exact oneLine_append.mpr ⟨nameLine, by decide⟩
    · exact instrsLine member entering
  obtain ⟨id, -, block, code, exit, found, blockLines, rfl | inCode | inExit⟩ :=
    mem_emitBlocks blocksEmitted inBlocks
  · exact oneLine_append.mpr ⟨oneLine_of_graphic (legible.labels id block found).graphic, by decide⟩
  · obtain ⟨instruction, present, listing, code, instructionLines, inComment | inCode⟩ :=
      mem_emitInstructions blockLines.code_eq inCode
    · obtain ⟨-, shown⟩ := showInstruction_plain Text.removesColours_stripEscapes legible
        (legible.functions id block found instruction present) instructionLines.listing_eq
      rw [eq_of_mem_commentLine inComment]
      exact oneLine_append.mpr ⟨by decide, oneLine_of_graphic shown⟩
    · exact instrsLine member inCode
  · exact instrsLine member inExit

/-! ## Labels -/

/-- A block label starts with a mark that no word has. -/
theorem labelAt_ne_of_isWord (finished : graph.Finished defined) {id : BlockId}
    (emitted : id ∈ graph.order) {word : String} (isWord : isWord word = true) :
    graph.labelAt id ≠ word := by
  obtain ⟨block, found⟩ := exists_block (finished.formed.order_known id emitted)
  obtain ⟨tag, -, label_eq⟩ := finished.named.labels id block found
  rw [labelAt_of_get? found, label_eq]
  rintro rfl
  simp [SmallC.isWord, blockLabel, Piece.isWordStart] at isWord

/-- Labels of blocks of two graphs are different, unless the graphs have the same name and the
blocks the same number. -/
theorem labelAt_inj {other : Graph} (finished : graph.Finished defined)
    (otherFinished : other.Finished defined) {id otherId : BlockId}
    (emitted : id ∈ graph.order) (otherEmitted : otherId ∈ other.order)
    (same : graph.labelAt id = other.labelAt otherId) : graph.name = other.name ∧ id = otherId := by
  obtain ⟨block, found⟩ := exists_block (finished.formed.order_known id emitted)
  obtain ⟨otherBlock, otherFound⟩ :=
    exists_block (otherFinished.formed.order_known otherId otherEmitted)
  rw [labelAt_of_get? found, labelAt_of_get? otherFound] at same
  exact labels_inj finished.named.labels otherFinished.named.labels found otherFound same

/-- The labels of a graph: its name and those of its blocks. -/
def definedLabels (graph : Graph) : List String :=
  graph.name :: graph.order.map graph.labelAt

theorem nodup_definedLabels (finished : graph.Finished defined) : (definedLabels graph).Nodup := by
  refine List.nodup_cons.mpr ⟨?_, ?_⟩
  · intro member
    obtain ⟨id, emitted, same⟩ := List.mem_map.mp member
    exact labelAt_ne_of_isWord finished emitted finished.named.word same
  · refine List.Nodup.map_on ?_ finished.formed.order_nodup
    intro id emitted other otherEmitted same
    exact (labelAt_inj finished finished emitted otherEmitted same).2

theorem disjoint_definedLabels {other : Graph} (finished : graph.Finished defined)
    (otherFinished : other.Finished defined)
    (different : graph.name ≠ other.name) :
    (definedLabels graph).Disjoint (definedLabels other) := by
  intro label inGraph inOther
  rcases List.mem_cons.mp inGraph with rfl | inGraph
  · rcases List.mem_cons.mp inOther with same | inOther
    · exact different same
    · obtain ⟨id, emitted, same⟩ := List.mem_map.mp inOther
      exact labelAt_ne_of_isWord otherFinished emitted finished.named.word same
  · obtain ⟨id, emitted, rfl⟩ := List.mem_map.mp inGraph
    rcases List.mem_cons.mp inOther with same | inOther
    · exact labelAt_ne_of_isWord finished emitted otherFinished.named.word same
    · obtain ⟨otherId, otherEmitted, same⟩ := List.mem_map.mp inOther
      exact different (labelAt_inj otherFinished finished otherEmitted emitted same).1.symm

/-- Graphs with different names define no label twice. -/
theorem nodup_flatMap_definedLabels {graphs : List Graph}
    (finished : ∀ graph ∈ graphs, graph.Finished defined)
    (names_nodup : (graphs.map (·.name)).Nodup) : (graphs.flatMap definedLabels).Nodup := by
  induction graphs with
  | nil => exact List.nodup_nil
  | cons first others ih =>
    rw [List.forall_mem_cons] at finished
    rw [List.map_cons, List.nodup_cons] at names_nodup
    rw [List.flatMap_cons, List.nodup_append']
    refine ⟨nodup_definedLabels finished.1, ih finished.2 names_nodup.2, ?_⟩
    intro label inFirst inOthers
    obtain ⟨other, member, inOther⟩ := List.mem_flatMap.mp inOthers
    have different : first.name ≠ other.name := fun same =>
      names_nodup.1 (same ▸ List.mem_map_of_mem member)
    exact disjoint_definedLabels finished.1 (finished.2 other member) different inFirst inOther

/-! ## Programs -/

variable {program : Program} {graphs : List Graph} {functions : List (List Line)}

/-- The lines of a program with functions. -/
def programLines (functions : List (List Line)) : List Line :=
  fileHeader ++ functions.flatMap (· ++ [.blank]) ++ fileFooter

@[simp]
theorem labels_programLines (functions : List (List Line)) :
    labels (programLines functions) = functions.flatMap labels := by
  have header : labels fileHeader = [] := rfl
  have footer : labels fileFooter = [] := rfl
  have blank : labels [.blank] = [] := rfl
  rw [programLines, labels_append, labels_append, header, footer, List.nil_append, List.append_nil]
  induction functions with
  | nil => rfl
  | cons first others ih =>
    rw [List.flatMap_cons, labels_append, labels_append, blank, List.append_nil, ih,
      List.flatMap_cons]

theorem mem_programLines {line : Line} :
    line ∈ programLines functions ↔
      line ∈ fileHeader ∨ (∃ lines ∈ functions, line ∈ lines ∨ line = .blank) ∨
        line ∈ fileFooter := by
  simp [programLines]

theorem oneLine_programLines (finished : ∀ graph ∈ graphs, graph.Finished defined)
    (emitted : List.Forall₂ (fun graph lines => emitFunction options graph = .ok lines)
      graphs functions) : ∀ line ∈ programLines functions, OneLine line.text := by
  intro line member
  rcases mem_programLines.mp member with inHeader | ⟨lines, isFunction, inLines | rfl⟩ | inFooter
  · have fixed : ∀ line ∈ fileHeader, OneLine line.text := by decide
    exact fixed line inHeader
  · obtain ⟨graph, present, graphEmitted⟩ := exists_mem_of_forall₂ emitted isFunction
    exact oneLine_emitFunction (finished graph present) graphEmitted line inLines
  · decide
  · have fixed : ∀ line ∈ fileFooter, OneLine line.text := by decide
    exact fixed line inFooter

/-- The lines of a program's functions define what they use, and define it once. -/
structure Closed (program : Program) (functions : List (List Line)) : Prop where
  /-- Every function has its lines, which start with its own label. -/
  symbols : List.Forall₂ (fun function lines => (labels lines).head? = some function.name.name)
    program.functions functions
  /-- The lines of the text are the lines of the program. -/
  oneLine : ∀ line ∈ programLines functions, OneLine line.text
  labels_nodup : (labels (programLines functions)).Nodup
  jumps : ∀ lines ∈ functions, ∀ instr, .instr instr ∈ lines →
    ∀ label ∈ instr.target?, label ∈ labels lines
  calls : ∀ instr, .instr instr ∈ programLines functions → ∀ callee ∈ instr.callee?,
    ∃ name, isWord name = true ∧
      (program.defines name = true ∧ callee = name ∧ name ∈ labels (programLines functions) ∨
        program.defines name = false ∧ callee = name ++ "@PLT")

/-- What the lines of functions define. -/
theorem map_labels_of_emitted (finished : ∀ graph ∈ graphs, graph.Finished defined)
    (emitted : List.Forall₂ (fun graph lines => emitFunction options graph = .ok lines)
      graphs functions) : functions.map labels = graphs.map definedLabels := by
  induction emitted with
  | nil => rfl
  | cons firstEmitted _ ih =>
    rw [List.forall_mem_cons] at finished
    rw [List.map_cons, List.map_cons, labels_emitFunction finished.1.formed firstEmitted,
      ih finished.2, definedLabels]

/-- Finished graphs of the functions of a program are emitted as closed lines. -/
theorem closed_of_emitted (names_eq : graphs.map (·.name) = program.functions.map (·.name.name))
    (finished : ∀ graph ∈ graphs, graph.Finished program.defines)
    (names_nodup : (program.functions.map (·.name.name)).Nodup)
    (emitted : List.Forall₂ (fun graph lines => emitFunction options graph = .ok lines)
      graphs functions) : Closed program functions := by
  have labels_eq := map_labels_of_emitted finished emitted
  have allLabels_eq : labels (programLines functions) = graphs.flatMap definedLabels := by
    rw [labels_programLines, List.flatMap_def, labels_eq, List.flatMap_def]
  have heads_eq : functions.map (fun lines => (labels lines).head?) =
      program.functions.map fun function => some function.name.name := by
    calc functions.map (fun lines => (labels lines).head?)
        = (functions.map labels).map List.head? := by rw [List.map_map]; rfl
      _ = graphs.map fun graph => some graph.name := by rw [labels_eq, List.map_map]; rfl
      _ = (graphs.map (·.name)).map some := by rw [List.map_map]; rfl
      _ = program.functions.map fun function => some function.name.name := by
          rw [names_eq, List.map_map]; rfl
  refine ⟨?symbols, ?oneLine, ?nodup, ?jumps, ?calls⟩
  case symbols =>
    rw [← List.forall₂_eq_eq_eq, List.forall₂_map_left_iff, List.forall₂_map_right_iff] at heads_eq
    exact heads_eq.flip
  case oneLine => exact oneLine_programLines finished emitted
  case nodup =>
    rw [allLabels_eq]
    exact nodup_flatMap_definedLabels finished (names_eq ▸ names_nodup)
  case jumps =>
    intro lines isFunction instr inLines label jumped
    obtain ⟨graph, present, graphEmitted⟩ := exists_mem_of_forall₂ emitted isFunction
    rw [labels_emitFunction (finished graph present).formed graphEmitted]
    exact List.mem_cons_of_mem _
      ((leads_emitFunction (finished graph present) graphEmitted inLines).1 label jumped)
  case calls =>
    intro instr member callee called
    obtain ⟨lines, isFunction, inLines⟩ : ∃ lines ∈ functions, .instr instr ∈ lines := by
      simpa [mem_programLines, fileHeader, fileFooter] using member
    obtain ⟨graph, present, graphEmitted⟩ := exists_mem_of_forall₂ emitted isFunction
    obtain ⟨name, word, rfl⟩ :=
      (leads_emitFunction (finished graph present) graphEmitted inLines).2 callee called
    refine ⟨name, word, ?_⟩
    cases defines : program.defines name with
    | false => exact .inr ⟨rfl, by simp [Lowering.callTarget, defines, Lowering.externalSuffix]⟩
    | true =>
      refine .inl ⟨rfl, by simp [Lowering.callTarget, defines], ?_⟩
      obtain ⟨function, isFunction, name_eq⟩ := List.any_eq_true.mp defines
      have isName : name ∈ graphs.map (·.name) := by
        rw [names_eq]
        exact List.mem_map.mpr ⟨function, isFunction, beq_iff_eq.mp name_eq⟩
      obtain ⟨callee, isGraph, rfl⟩ := List.mem_map.mp isName
      rw [allLabels_eq]
      exact List.mem_flatMap.mpr ⟨callee, isGraph, List.mem_cons_self⟩

end Assembly

/-- The functions of a program that passes the checks have different names, and one of them is
`main`. -/
theorem Program.nodup_of_check {program : Program} {warnings : List Warning}
    (checked : program.check = .ok warnings) :
    (program.functions.map (·.name.name)).Nodup ∧ program.defines "main" = true := by
  obtain ⟨nodup, hasMain, -⟩ := Program.check_eq_ok_iff.mp checked
  exact ⟨nodup, hasMain⟩

/-- The graphs of a lowered program are finished. -/
theorem finished_of_lower {program : Program} {graphs : List Graph}
    (tree : program.WellFormed) (lowered : program.lower = .ok graphs) :
    graphs.map (·.name) = program.functions.map (·.name.name) ∧
      ∀ graph ∈ graphs, graph.Finished program.defines := by
  have all := Lowering.functionLowered_of_lowerFunctions tree lowered
  constructor
  · rw [← List.forall₂_eq_eq_eq, List.forall₂_map_left_iff, List.forall₂_map_right_iff]
    refine List.Forall₂.flip (all.imp ?_)
    rintro function graph ⟨-, taken, functionLowered⟩
    exact functionLowered.name_eq
  · intro graph member
    obtain ⟨function, present, lowered, taken, functionLowered⟩ := exists_mem_of_forall₂ all member
    have functionFormed := tree function present
    exact ⟨functionLowered.kept.formed, Lowering.complete_lowerFunction functionFormed lowered,
      Lowering.named_lowerFunction functionFormed lowered⟩

/-- The assembly of a program with functions. -/
theorem exists_lines_assembly (target : Target) (options : Assembly.Options)
    {compilation : Compilation} (formed : ∀ graph ∈ compilation.graphs, graph.WellFormed)
    (nonempty : compilation.graphs ≠ []) :
    ∃ functions, List.Forall₂
        (fun graph lines => Assembly.emitFunction options graph = .ok lines)
        compilation.graphs functions ∧
      (compilation.assembly target options).outcome =
        .ok (Assembly.Line.render (Assembly.programLines functions)) := by
  obtain ⟨blocks, blocks_eq⟩ := exists_emittedBlocks formed
  obtain ⟨lines, lines_eq⟩ := Assembly.exists_emitFunctions options formed
  obtain ⟨functions, emitted, rfl⟩ := Assembly.emitFunctions_eq_ok_iff.mp lines_eq
  refine ⟨functions, emitted, ?_⟩
  have notEmpty : (functions.flatMap (· ++ [Assembly.Line.blank])).isEmpty = false := by
    have length_eq := emitted.length_eq
    cases functions with
    | nil => exact absurd (List.length_eq_zero_iff.mp length_eq) nonempty
    | cons first others => simp
  simp [Compilation.assembly, Assembly.emitProgram, Assembly.programLines, blocks_eq, lines_eq,
    notEmpty, bind, Logged.andThen, Logged.entry, Logged.entries, Logged.quiet, Except.mapError,
    Except.bind, pure, Except.pure]

/-- The assembly of a compiled program is the text of the lines of its graphs, and closed. -/
theorem exists_closed_assembly {source : Source} {program : Program} {compilation : Compilation}
    (parsed : parseProgram source.text = .ok program)
    (compiled : (compile source).outcome = .ok compilation) (target : Target)
    (options : Assembly.Options) :
    (∀ graph ∈ compilation.graphs, graph.Finished program.defines) ∧
      ∃ functions,
        List.Forall₂ (fun graph lines => Assembly.emitFunction options graph = .ok lines)
            compilation.graphs functions ∧
          (compilation.assembly target options).outcome =
            .ok (Assembly.Line.render (Assembly.programLines functions)) ∧
          Assembly.Closed program functions := by
  obtain ⟨⟨warnings, checked⟩, lowered⟩ := lower_of_compile parsed compiled
  obtain ⟨names_eq, finished⟩ := finished_of_lower (Program.wellFormed_of_parse parsed) lowered
  obtain ⟨names_nodup, definesMain⟩ := Program.nodup_of_check checked
  have nonempty : compilation.graphs ≠ [] := by
    rintro noGraphs
    rw [noGraphs, List.map_nil, eq_comm, List.map_eq_nil_iff] at names_eq
    rw [Program.defines, names_eq] at definesMain
    cases definesMain
  obtain ⟨functions, emitted, outcome_eq⟩ := exists_lines_assembly target options
    (fun graph member => (finished graph member).formed) nonempty
  exact ⟨finished, functions, emitted, outcome_eq,
    Assembly.closed_of_emitted names_eq finished names_nodup emitted⟩

/-- The assembly of a compiled program consists of the lines emitted for its graphs, and these are
closed. -/
theorem assembly_closed {source : Source} {program : Program} {compilation : Compilation}
    (parsed : parseProgram source.text = .ok program)
    (compiled : (compile source).outcome = .ok compilation) (target : Target)
    (options : Assembly.Options) :
    ∃ functions,
      List.Forall₂ (fun graph lines => Assembly.emitFunction options graph = .ok lines)
          compilation.graphs functions ∧
        (compilation.assembly target options).outcome =
          .ok (Assembly.Line.render (Assembly.programLines functions)) ∧
        Assembly.Closed program functions :=
  (exists_closed_assembly parsed compiled target options).2

/-- The text of a program whose functions are named like labels. -/
def labelledText : String :=
  "int f_0(int a)\x7bif(a)return g(a);return f(a);\x7d" ++
    "int f(int a)\x7bwhile(a)a=f_0(a);return a;\x7dint main()\x7breturn f(1);\x7d"

/-- Names that look like labels do not get in the way. -/
theorem assembly_closed_labelled :
    ∃ program compilation, parseProgram (Source.ofText labelledText).text = .ok program ∧
      (compile (Source.ofText labelledText)).outcome = .ok compilation ∧
      ∃ functions,
        List.Forall₂ (fun graph lines => Assembly.emitFunction ⟨true, .ansi⟩ graph = .ok lines)
            compilation.graphs functions ∧
          (compilation.assembly .x86LinuxGnu ⟨true, .ansi⟩).outcome =
            .ok (Assembly.Line.render (Assembly.programLines functions)) ∧
          Assembly.Closed program functions := by
  have evaluated : (parseProgram (Source.ofText labelledText).text).toOption.any (fun program =>
      program.check.toOption.isSome && program.lower.toOption.any fun _ => true) = true := by
    cbv
  obtain ⟨program, compilation, parsed, compiled, -⟩ := exists_compiled_of_any evaluated
  exact ⟨program, compilation, parsed, compiled,
    assembly_closed parsed compiled .x86LinuxGnu ⟨true, .ansi⟩⟩

end SmallC
