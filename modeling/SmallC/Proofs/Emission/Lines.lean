import SmallC.Proofs.Emission.Code

/-!
# The lines of functions

The blocks of a function stand in the order in which the graph emits them, each as its label, the
code of its instructions and the code of its exit.  Every line is found in one of these places.
-/

namespace SmallC.Assembly

open SmallC.Graph

/-! ## Labels -/

namespace Line

/-- The label that a line defines. -/
def label? : Line → Option String
  | .label name => some name
  | _ => none

/-- The labels that lines define, in order. -/
def labels (lines : List Line) : List String :=
  lines.filterMap label?

@[simp]
theorem labels_append (lines others : List Line) :
    labels (lines ++ others) = labels lines ++ labels others :=
  List.filterMap_append

@[simp]
theorem labels_label (name : String) (lines : List Line) :
    labels (.label name :: lines) = name :: labels lines :=
  rfl

@[simp]
theorem labels_map_instr (code : List Instr) : labels (code.map .instr) = [] := by
  simp [labels, label?]

@[simp]
theorem labels_commentLine (options : Options) (text : String) :
    labels (commentLine options text) = [] := by
  unfold commentLine
  split <;> rfl

end Line

theorem eq_of_mem_commentLine {options : Options} {text : String} {line : Line}
    (member : line ∈ commentLine options text) :
    line = .comment (Text.stripEscapes Text.isPrinting text) := by
  unfold commentLine at member
  split at member
  · exact List.mem_singleton.mp member
  · cases member

open Line

variable {options : Options} {graph : Graph} {instructions : List Instruction} {ids : List BlockId}
  {lines : List Line}

/-! ## Instructions of a block -/

theorem emitInstructions_cons_eq_ok_iff {first : Instruction} :
    emitInstructions options graph (first :: instructions) = .ok lines ↔
      ∃ listing code rest, graph.showInstruction options.palette first = .ok listing ∧
        emitInstruction graph first = .ok code ∧
        emitInstructions options graph instructions = .ok rest ∧
        commentLine options listing ++ code.map .instr ++ rest = lines := by
  simp [emitInstructions]

theorem labels_emitInstructions
    (emitted : emitInstructions options graph instructions = .ok lines) : labels lines = [] := by
  induction instructions generalizing lines with
  | nil =>
    cases emitted
    rfl
  | cons first others ih =>
    obtain ⟨listing, code, rest, -, -, restEmitted, rfl⟩ :=
      emitInstructions_cons_eq_ok_iff.mp emitted
    simp [ih restEmitted]

/-- The lines of an instruction: its comment and its code. -/
structure InstructionLines (options : Options) (graph : Graph) (instruction : Instruction)
    (listing : String) (code : List Instr) : Prop where
  listing_eq : graph.showInstruction options.palette instruction = .ok listing
  code_eq : emitInstruction graph instruction = .ok code

/-- Every line belongs to an instruction of the block. -/
theorem mem_emitInstructions (emitted : emitInstructions options graph instructions = .ok lines)
    {line : Line} (member : line ∈ lines) :
    ∃ instruction ∈ instructions, ∃ listing code,
      InstructionLines options graph instruction listing code ∧
        (line ∈ commentLine options listing ∨ line ∈ code.map .instr) := by
  induction instructions generalizing lines with
  | nil =>
    cases emitted
    cases member
  | cons first others ih =>
    obtain ⟨listing, code, rest, shown, codeEmitted, restEmitted, rfl⟩ :=
      emitInstructions_cons_eq_ok_iff.mp emitted
    rcases List.mem_append.mp member with here | later
    · exact ⟨first, List.mem_cons_self, listing, code, ⟨shown, codeEmitted⟩,
        List.mem_append.mp here⟩
    · obtain ⟨instruction, present, found⟩ := ih restEmitted later
      exact ⟨instruction, List.mem_cons_of_mem _ present, found⟩

/-! ## Blocks -/

/-- The lines of a block after its label. -/
structure BlockLines (options : Options) (graph : Graph) (block : BasicBlock)
    (code : List Line) (exit : List Instr) : Prop where
  code_eq : emitInstructions options graph block.instructions = .ok code
  exit_eq : (block.terminator >>= emitTerminator graph) = .ok exit

theorem emitBlocks_cons_eq_ok_iff {first : BlockId} :
    emitBlocks options graph (first :: ids) = .ok lines ↔
      ∃ block code exit rest, graph.blocks.get? first = some block ∧
        BlockLines options graph block code exit ∧ emitBlocks options graph ids = .ok rest ∧
        lines = .label block.label :: code ++ exit.map .instr ++ rest := by
  simp only [emitBlocks, bind_eq_ok_iff, block_eq_ok_iff, pure_eq_ok, Except.ok.injEq]
  constructor
  · rintro ⟨block, found, code, code_eq, terminator, terminator_eq, exit, exit_eq, rest, rest_eq,
      rfl⟩
    have exits : (block.terminator >>= emitTerminator graph) = .ok exit := by
      rw [terminator_eq, ok_bind, exit_eq]
    exact ⟨block, code, exit, rest, found, ⟨code_eq, exits⟩, rest_eq, rfl⟩
  · rintro ⟨block, code, exit, rest, found, ⟨code_eq, exits⟩, rest_eq, rfl⟩
    obtain ⟨terminator, terminator_eq, exit_eq⟩ := bind_eq_ok_iff.mp exits
    exact ⟨block, found, code, code_eq, terminator, terminator_eq, exit, exit_eq, rest, rest_eq,
      rfl⟩

section

variable (emitted : emitBlocks options graph ids = .ok lines)
include emitted

/-- The labels of blocks, in the order of the blocks. -/
theorem labels_emitBlocks : labels lines = ids.map graph.labelAt := by
  induction ids generalizing lines with
  | nil =>
    cases emitted
    rfl
  | cons first others ih =>
    obtain ⟨block, code, exit, rest, found, blockLines, restEmitted, rfl⟩ :=
      emitBlocks_cons_eq_ok_iff.mp emitted
    simp [labels_emitInstructions blockLines.code_eq, ih restEmitted, labelAt_of_get? found]

/-- Where the lines of a block stand among those of others. -/
theorem exists_blockLines {id : BlockId} (member : id ∈ ids) :
    ∃ before block code exit after, graph.blocks.get? id = some block ∧
      BlockLines options graph block code exit ∧
      lines = before ++ Line.label block.label :: (code ++ (exit.map .instr ++ after)) := by
  induction ids generalizing lines with
  | nil => cases member
  | cons first others ih =>
    obtain ⟨block, code, exit, rest, found, blockLines, restEmitted, rfl⟩ :=
      emitBlocks_cons_eq_ok_iff.mp emitted
    rcases List.mem_cons.mp member with rfl | later
    · exact ⟨[], block, code, exit, rest, found, blockLines, by simp⟩
    · obtain ⟨before, other, otherCode, otherExit, after, otherFound, otherLines, rfl⟩ :=
        ih restEmitted later
      exact ⟨.label block.label :: code ++ exit.map .instr ++ before, other, otherCode, otherExit,
        after, otherFound, otherLines, by simp⟩

/-- Every line belongs to a block. -/
theorem mem_emitBlocks {line : Line} (member : line ∈ lines) :
    ∃ id ∈ ids, ∃ block code exit, graph.blocks.get? id = some block ∧
      BlockLines options graph block code exit ∧
      (line = .label block.label ∨ line ∈ code ∨ line ∈ exit.map .instr) := by
  induction ids generalizing lines with
  | nil =>
    cases emitted
    cases member
  | cons first others ih =>
    obtain ⟨block, code, exit, rest, found, blockLines, restEmitted, rfl⟩ :=
      emitBlocks_cons_eq_ok_iff.mp emitted
    rcases List.mem_append.mp member with here | later
    · rw [List.cons_append, List.mem_cons, List.mem_append] at here
      exact ⟨first, List.mem_cons_self, block, code, exit, found, blockLines, here⟩
    · obtain ⟨id, present, inOther⟩ := ih restEmitted later
      exact ⟨id, List.mem_cons_of_mem _ present, inOther⟩

end

/-! ## Functions -/

/-- The code before the first block of a function. -/
def entryCode (graph : Graph) : List Instr :=
  prologue (frameSize graph) ++ spillCode graph Register.arguments graph.parameters

theorem emitFunction_eq_ok_iff (formed : graph.WellFormed) :
    emitFunction options graph = .ok lines ↔
      ∃ blocks, emitBlocks options graph graph.order = .ok blocks ∧
        functionHeader graph.name ++ (entryCode graph).map .instr ++ blocks = lines := by
  simp [emitFunction, spillParameters_eq _ formed.parameters_known, entryCode]

theorem labels_emitFunction (formed : graph.WellFormed)
    (emitted : emitFunction options graph = .ok lines) :
    labels lines = graph.name :: graph.order.map graph.labelAt := by
  obtain ⟨blocks, blocksEmitted, rfl⟩ := (emitFunction_eq_ok_iff formed).mp emitted
  rw [labels_append, labels_append, labels_map_instr, labels_emitBlocks blocksEmitted]
  rfl

/-! ## Programs -/

/-- The lines of a program are those of its functions between a header and a footer. -/
theorem emitFunctions_eq_ok_iff {graphs : List Graph} :
    emitFunctions options graphs = .ok lines ↔
      ∃ functions, List.Forall₂ (fun graph function => emitFunction options graph = .ok function)
          graphs functions ∧ lines = functions.flatMap (· ++ [Line.blank]) := by
  induction graphs generalizing lines with
  | nil => simp [emitFunctions, eq_comm]
  | cons first others ih =>
    simp only [emitFunctions, bind_eq_ok_iff, pure_eq_ok, Except.ok.injEq]
    constructor
    · rintro ⟨function, firstEmitted, rest, restEmitted, rfl⟩
      obtain ⟨functions, all, rfl⟩ := ih.mp restEmitted
      exact ⟨function :: functions, .cons firstEmitted all, by simp⟩
    · rintro ⟨functions, all, rfl⟩
      cases all with
      | @cons _ function _ functions firstEmitted all =>
        exact ⟨function, firstEmitted, _, ih.mpr ⟨functions, all, rfl⟩, by simp⟩

end SmallC.Assembly
