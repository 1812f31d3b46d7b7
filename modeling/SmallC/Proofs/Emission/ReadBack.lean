import SmallC.Proofs.Emission.Closed
import SmallC.Proofs.Emission.Reading
import SmallC.Proofs.Graph.Flow

/-!
# Assembly that is read back

The names in the assembly of a program are words, words that are marked as external, and labels of
blocks.  Only plain words can be spelled like registers, so jumps always lead to the blocks they are
meant for, and the text is read as it was meant unless a function is called whose name is that of a
register.
-/

namespace SmallC

/-- The function that an instruction calls. -/
def Instruction.callee? (instruction : Instruction) : Option String :=
  match instruction.operation, instruction.operands with
  | .call, _ :: .function function :: _ => some function
  | _, _ => none

namespace Assembly

open SmallC.Graph

/-! ## Names -/

/-- No label of a block is spelled like a register. -/
theorem registerNamed?_blockLabel (function : String) (number : Nat) (tag : String) :
    registerNamed? (blockLabel function number tag).toList = none := by
  simp only [blockLabel, String.toList_append, List.append_assoc]
  exact registerNamed?_eq_none rfl

variable {defined : String → Bool} {options : Options} {graph : Graph} {lines : List Line}

/-- What is known about the label of a block. -/
theorem labelAt_symbol (finished : graph.Finished defined) {label : String}
    (isLabel : label ∈ graph.order.map graph.labelAt) :
    isSymbol label = true ∧ registerNamed? label.toList = none := by
  obtain ⟨id, isEmitted, rfl⟩ := List.mem_map.mp isLabel
  obtain ⟨block, found⟩ := exists_block (finished.formed.order_known id isEmitted)
  obtain ⟨tag, plain, label_eq⟩ := finished.named.labels id block found
  rw [labelAt_of_get? found, label_eq]
  exact ⟨isSymbol_blockLabel finished.named.word plain _, registerNamed?_blockLabel _ _ _⟩

/-- The symbols of an instruction are where it jumps to and what it calls. -/
theorem symbols_instr (instr : Instr) :
    (Line.instr instr).symbols = instr.target?.toList ++ instr.callee?.toList := by
  cases instr <;> rfl

theorem readable_blank : Line.blank.Readable :=
  ⟨nofun, nofun, nofun⟩

theorem readable_verbatim {content : String} (dotted : content.toList.head? = some '.') :
    (Line.verbatim content).Readable :=
  ⟨fun _ same => by cases same; exact dotted, nofun, nofun⟩

theorem readable_label {name : String} (symbol : isSymbol name = true) :
    (Line.label name).Readable :=
  ⟨nofun, fun _ same => by cases same; exact symbol, nofun⟩

/-- The lines of a function are written with names of symbols. -/
theorem readable_emitFunction (finished : graph.Finished defined)
    (emitted : emitFunction options graph = .ok lines) : ∀ line ∈ lines, line.Readable := by
  have ofInstr {instr : Instr} (member : .instr instr ∈ lines) : (Line.instr instr).Readable := by
    obtain ⟨jumps, calls⟩ := leads_emitFunction finished emitted member
    refine ⟨nofun, nofun, fun name isSymbol => ?_⟩
    rw [symbols_instr, List.mem_append, Option.mem_toList, Option.mem_toList] at isSymbol
    rcases isSymbol with jumped | called
    · exact (labelAt_symbol finished (jumps name jumped)).1
    · obtain ⟨word, isWord, rfl⟩ := calls name called
      exact isSymbol_callTarget defined isWord
  intro line member
  have labels_eq := labels_emitFunction finished.formed emitted
  cases line with
  | blank => exact readable_blank
  | comment content => exact ⟨nofun, nofun, nofun⟩
  | instr content => exact ofInstr member
  | label name =>
    have isLabel : name ∈ Line.labels lines := List.mem_filterMap.mpr ⟨_, member, rfl⟩
    rw [labels_eq, List.mem_cons] at isLabel
    rcases isLabel with rfl | isLabel
    · exact readable_label (isSymbol_of_isWord finished.named.word)
    · exact readable_label (labelAt_symbol finished isLabel).1
  | verbatim content =>
    obtain ⟨blocks, blocksEmitted, rfl⟩ := (emitFunction_eq_ok_iff finished.formed).mp emitted
    rcases List.mem_append.mp member with before | inBlocks
    · have inHeader : .verbatim content ∈ functionHeader graph.name := by
        simpa using before
      simp only [functionHeader, List.mem_cons, List.not_mem_nil, or_false, reduceCtorEq] at inHeader
      rcases inHeader with same | same
      · cases same
        exact readable_verbatim (by rw [String.toList_append]; rfl)
      · cases same
        exact readable_verbatim (by rw [String.toList_append, String.toList_append]; rfl)
    · obtain ⟨id, -, block, code, exit, -, blockLines, isLabel | inCode | inExit⟩ :=
        mem_emitBlocks blocksEmitted inBlocks
      · cases isLabel
      · obtain ⟨_, -, _, _, -, inComment | inCode⟩ := mem_emitInstructions blockLines.code_eq inCode
        · cases eq_of_mem_commentLine inComment
        · simp at inCode
      · simp at inExit

/-! ## What code leads to, in order -/

/-- The instruction of a line. -/
def Line.instr? : Line → Option Instr
  | .instr content => some content
  | _ => none

/-- What is seen of the instructions in lines, in order. -/
def seen (view : Instr → Option String) (lines : List Line) : List String :=
  lines.filterMap fun line => line.instr?.bind view

/-- Collects names over the instructions and the exits of the blocks, in the order of emission. -/
def collect (ofInstruction : Instruction → List String) (ofExit : Terminator → List String)
    (graph : Graph) : List String :=
  graph.order.flatMap fun id => (graph.blocks.get? id).elim [] fun block =>
    block.instructions.flatMap ofInstruction ++ block.terminator.toOption.elim [] ofExit

/-- What is seen of code tells what the instructions and exits it was emitted for name. -/
structure Shows (graph : Graph) (view : Instr → Option String)
    (ofInstruction : Instruction → List String) (ofExit : Terminator → List String) : Prop where
  straight : ∀ code, straight code = true → code.filterMap view = []
  instruction : ∀ instruction code, CodeOf graph instruction code →
    code.filterMap view = ofInstruction instruction
  exit : ∀ terminator, (exitCode graph terminator).filterMap view = ofExit terminator

section Shows

variable {view : Instr → Option String} {ofInstruction : Instruction → List String}
  {ofExit : Terminator → List String}

@[simp]
theorem seen_append (lines others : List Line) :
    seen view (lines ++ others) = seen view lines ++ seen view others :=
  List.filterMap_append

@[simp]
theorem seen_label (name : String) (lines : List Line) :
    seen view (.label name :: lines) = seen view lines :=
  rfl

@[simp]
theorem seen_map_instr (code : List Instr) : seen view (code.map .instr) = code.filterMap view :=
  List.filterMap_map

@[simp]
theorem seen_commentLine (options : Options) (text : String) :
    seen view (commentLine options text) = [] := by
  unfold commentLine
  split <;> rfl

section

variable (shows : Shows graph view ofInstruction ofExit)
include shows

theorem Shows.emitInstructions {instructions : List Instruction}
    (formed : ∀ instruction ∈ instructions, instruction.WellFormed graph.HasSlot graph.HasBlock)
    (emitted : emitInstructions options graph instructions = .ok lines) :
    seen view lines = instructions.flatMap ofInstruction := by
  induction instructions generalizing lines with
  | nil =>
    cases emitted
    rfl
  | cons first others ih =>
    obtain ⟨listing, code, rest, -, codeEmitted, restEmitted, rfl⟩ :=
      emitInstructions_cons_eq_ok_iff.mp emitted
    rw [List.forall_mem_cons] at formed
    have codeOf := codeOf_of_emitInstruction formed.1 codeEmitted
    simp [ih formed.2 restEmitted, shows.instruction _ _ codeOf]

theorem Shows.emitBlocks (finished : graph.Finished defined) {ids : List BlockId}
    (emitted : emitBlocks options graph ids = .ok lines) :
    seen view lines =
      ids.flatMap fun id => (graph.blocks.get? id).elim [] fun block =>
        block.instructions.flatMap ofInstruction ++ block.terminator.toOption.elim [] ofExit := by
  induction ids generalizing lines with
  | nil =>
    cases emitted
    rfl
  | cons first others ih =>
    obtain ⟨block, code, exit, rest, found, blockLines, restEmitted, rfl⟩ :=
      emitBlocks_cons_eq_ok_iff.mp emitted
    have code_eq := shows.emitInstructions
      (finished.formed.blocks_formed first block found).instructions blockLines.code_eq
    obtain ⟨terminator, terminator_eq, terminatorFormed⟩ :=
      finished.complete.exits first block found
    have known := terminatorFormed.mono (fun _ known => known) finished.formed.order_known
    have exit_eq := blockLines.exit_eq
    rw [terminator_eq, ok_bind, emitTerminator_eq known] at exit_eq
    cases exit_eq
    simp [ih restEmitted, code_eq, found, terminator_eq, shows.exit, Except.toOption]

theorem Shows.emitFunction (finished : graph.Finished defined)
    (emitted : emitFunction options graph = .ok lines) :
    seen view lines = collect ofInstruction ofExit graph := by
  obtain ⟨blocks, blocksEmitted, rfl⟩ := (emitFunction_eq_ok_iff finished.formed).mp emitted
  have isStraight : Assembly.straight (entryCode graph) = true := by
    simp [entryCode, straight_prologue, straight_spillCode]
  have header_eq : seen view (functionHeader graph.name) = [] := rfl
  simp [shows.emitBlocks finished blocksEmitted, shows.straight _ isStraight, header_eq, collect]

end

end Shows

/-- Code leads nowhere, unless it is that of a call or of a jump. -/
theorem CodeOf.straight_or {instruction : Instruction} {code : List Instr}
    (codeOf : CodeOf graph instruction code) :
    (straight code = true ∧ instruction.callee? = none ∧ instruction.targets = []) ∨
      (∃ target function arguments, instruction = .call target function arguments ∧
        code = passCode graph arguments ++ .call function :: takeCode graph target arguments) ∨
      ∃ target, instruction = .jump target ∧ code = [.jump (graph.labelAt target)] := by
  cases codeOf with
  | loadConstant target value | copy target source => exact .inl ⟨rfl, rfl, rfl⟩
  | arithmetic op target left right => cases op <;> exact .inl ⟨rfl, rfl, rfl⟩
  | compare op target left right => exact .inl ⟨rfl, rfl, rfl⟩
  | unary op target | step op target => cases op <;> exact .inl ⟨rfl, rfl, rfl⟩
  | call target function arguments => exact .inr (.inl ⟨target, function, arguments, rfl, rfl⟩)
  | ret value => cases value <;> exact .inl ⟨rfl, rfl, rfl⟩
  | jump target => exact .inr (.inr ⟨target, rfl, rfl⟩)

/-- The calls in code are those of the instructions it was emitted for. -/
theorem shows_callees (graph : Graph) :
    Shows graph Instr.callee? (fun instruction => instruction.callee?.toList) fun _ => [] := by
  have ofStraight (code : List Instr) (isStraight : straight code = true) :
      code.filterMap Instr.callee? = [] :=
    List.filterMap_eq_nil_iff.mpr fun _ member => (leads_nowhere isStraight member).2
  refine ⟨ofStraight, ?_, ?_⟩
  · intro instruction code codeOf
    rcases codeOf.straight_or with ⟨isStraight, noCallee, -⟩ |
      ⟨target, function, arguments, rfl, rfl⟩ | ⟨target, rfl, rfl⟩
    · rw [ofStraight _ isStraight, noCallee, Option.toList_none]
    · rw [List.filterMap_append, ofStraight _ (straight_passCode arguments), List.nil_append,
        List.filterMap_cons_some (show (Instr.call function).callee? = some function from rfl),
        ofStraight _ (straight_takeCode target arguments)]
      rfl
    · rfl
  · intro terminator
    cases terminator <;> rfl

/-- The jumps in code are those of the instructions and exits it was emitted for.  Where a branch
fails comes first. -/
theorem shows_jumps (graph : Graph) :
    Shows graph Instr.target? (fun instruction => instruction.targets.map graph.labelAt)
      fun terminator => terminator.targets.reverse.map graph.labelAt := by
  have ofStraight (code : List Instr) (isStraight : straight code = true) :
      code.filterMap Instr.target? = [] :=
    List.filterMap_eq_nil_iff.mpr fun _ member => (leads_nowhere isStraight member).1
  refine ⟨ofStraight, ?_, ?_⟩
  · intro instruction code codeOf
    rcases codeOf.straight_or with ⟨isStraight, -, noTargets⟩ |
      ⟨target, function, arguments, rfl, rfl⟩ | ⟨target, rfl, rfl⟩
    · rw [ofStraight _ isStraight, noTargets, List.map_nil]
    · rw [List.filterMap_append, ofStraight _ (straight_passCode arguments), List.nil_append,
        List.filterMap_cons_none rfl, ofStraight _ (straight_takeCode target arguments),
        (Instruction.computes_call target function arguments).targets, List.map_nil]
    · rfl
  · intro terminator
    cases terminator <;> rfl

/-! ## What is read of lines -/

namespace Statement

/-- The operands of a call. -/
def called? : Statement → Option (List Operand)
  | .instruction "call" operands => some operands
  | _ => none

/-- The operands of a jump, with or without a condition. -/
def jumped? : Statement → Option (List Operand)
  | .instruction "jmp" operands => some operands
  | .instruction "je" operands => some operands
  | _ => none

end Statement

/-- What is read of a line of an instruction. -/
theorem readLine_instr {instr : Instr} (readable : (Line.instr instr).Readable) :
    readLine (Line.instr instr).text.toList =
      some (.instruction instr.mnemonic
        (instr.operands.map fun operand => readOperand operand.text.toList)) := by
  rw [Line.text, readLine_indented, readIndented_text fun name member =>
    readable.symbols name (mem_symbols_instr.mpr member)]

/-- A part of statements that names what some instructions lead to. -/
structure Picks (part : Statement → Option (List Operand)) (view : Instr → Option String) :
    Prop where
  other : ∀ line : Line, line.instr? = none → part line.statement = none
  instr : ∀ instr : Instr,
    part (.instruction instr.mnemonic
        (instr.operands.map fun operand => readOperand operand.text.toList)) =
      (view instr).map fun name => [readOperand name.toList]

theorem picks_called_jumped :
    Picks Statement.called? Instr.callee? ∧ Picks Statement.jumped? Instr.target? := by
  constructor
  all_goals
    constructor
    · intro line noInstr
      cases line with
      | instr content => cases noInstr
      | _ => rfl
    · intro instr
      cases instr with
      | alu op target source | shift op target count => cases op <;> rfl
      | set condition target => cases condition <;> rfl
      | _ => rfl

section Picks

variable {part : Statement → Option (List Operand)} {view : Instr → Option String}

theorem Picks.readLine (picks : Picks part view) {line : Line} (readable : line.Readable) :
    (readLine line.text.toList).bind part =
      (line.instr?.bind view).map fun name => [readOperand name.toList] := by
  cases line with
  | instr content =>
    rw [readLine_instr readable, Option.bind_some, picks.instr]
    rfl
  | _ =>
    rw [(readLine_text_iff readable).mpr nofun, Option.bind_some, picks.other _ rfl]
    rfl

/-- What is picked out of a text is what is seen of its lines. -/
theorem Picks.readText (picks : Picks part view) (oneLine : ∀ line ∈ lines, OneLine line.text)
    (readable : ∀ line ∈ lines, line.Readable) :
    (readText (Line.render lines)).filterMap (·.bind part) =
      (seen view lines).map fun name => [readOperand name.toList] := by
  rw [readText_render oneLine, List.filterMap_map, seen, List.map_filterMap]
  exact List.filterMap_congr fun line member => picks.readLine (readable line member)

end Picks

theorem mem_seen {view : Instr → Option String} {name : String} :
    name ∈ seen view lines ↔ ∃ instr, .instr instr ∈ lines ∧ view instr = some name := by
  rw [seen, List.mem_filterMap]
  constructor
  · rintro ⟨line, member, isSeen⟩
    cases line with
    | instr content => exact ⟨content, member, isSeen⟩
    | _ => cases isSeen
  · rintro ⟨instr, member, isSeen⟩
    exact ⟨.instr instr, member, isSeen⟩

/-- The symbols in lines are where they jump to and what they call. -/
theorem forall_symbols_iff {holds : String → Prop} :
    (∀ line ∈ lines, ∀ name ∈ line.symbols, holds name) ↔
      (∀ name ∈ seen Instr.target? lines, holds name) ∧
        ∀ name ∈ seen Instr.callee? lines, holds name := by
  constructor
  · intro all
    constructor
    · intro name isSeen
      obtain ⟨instr, member, jumped⟩ := mem_seen.mp isSeen
      refine all _ member name ?_
      rw [symbols_instr, jumped]
      exact List.mem_cons_self
    · intro name isSeen
      obtain ⟨instr, member, called⟩ := mem_seen.mp isSeen
      refine all _ member name ?_
      rw [symbols_instr, called]
      exact List.mem_append_right _ List.mem_cons_self
  · rintro ⟨jumps, calls⟩ line member name isSymbol
    cases line with
    | instr content =>
      rw [symbols_instr, List.mem_append, Option.mem_toList, Option.mem_toList] at isSymbol
      rcases isSymbol with jumped | called
      · exact jumps name (mem_seen.mpr ⟨content, member, jumped⟩)
      · exact calls name (mem_seen.mpr ⟨content, member, called⟩)
    | _ => cases isSymbol

/-! ## Programs -/

/-- The functions that a graph calls, in the order of emission. -/
def callees (graph : Graph) : List String :=
  collect (fun instruction => instruction.callee?.toList) (fun _ => []) graph

/-- The labels that a graph jumps to, in the order of emission. -/
def jumps (graph : Graph) : List String :=
  collect (fun instruction => instruction.targets.map graph.labelAt)
    (fun terminator => terminator.targets.reverse.map graph.labelAt) graph

/-- What is seen of a program is what is seen of its functions. -/
theorem seen_programLines {view : Instr → Option String} {names : Graph → List String}
    {graphs : List Graph} {functions : List (List Line)}
    (emitted : List.Forall₂ (fun graph lines => emitFunction options graph = .ok lines)
      graphs functions)
    (seen_eq : ∀ graph ∈ graphs, ∀ lines, emitFunction options graph = .ok lines →
      seen view lines = names graph) :
    seen view (programLines functions) = graphs.flatMap names := by
  have header : seen view fileHeader = [] := rfl
  have footer : seen view fileFooter = [] := rfl
  have blank : seen view [.blank] = [] := rfl
  rw [programLines, seen_append, seen_append, header, footer, List.nil_append, List.append_nil]
  induction emitted with
  | nil => rfl
  | cons firstEmitted _ ih =>
    rw [List.forall_mem_cons] at seen_eq
    rw [List.flatMap_cons, List.flatMap_cons, seen_append, seen_append, blank, List.append_nil,
      seen_eq.1 _ firstEmitted, ih seen_eq.2]

section Programs

variable {graphs : List Graph} {functions : List (List Line)}
  (finished : ∀ graph ∈ graphs, graph.Finished defined)
  (emitted : List.Forall₂ (fun graph lines => emitFunction options graph = .ok lines)
    graphs functions)

include finished emitted

theorem readable_programLines : ∀ line ∈ programLines functions, line.Readable := by
  have fixed : ∀ line ∈ fileHeader ++ fileFooter, line.Readable := by
    simp only [fileHeader, fileFooter, List.cons_append, List.nil_append, List.forall_mem_cons]
    exact ⟨readable_verbatim rfl, readable_verbatim rfl, readable_blank, readable_verbatim rfl,
      List.forall_mem_nil _⟩
  intro line member
  rcases mem_programLines.mp member with inHeader | ⟨lines, isFunction, inLines | rfl⟩ | inFooter
  · exact fixed line (List.mem_append_left _ inHeader)
  · obtain ⟨graph, present, graphEmitted⟩ := exists_mem_of_forall₂ emitted isFunction
    exact readable_emitFunction (finished graph present) graphEmitted line inLines
  · exact readable_blank
  · exact fixed line (List.mem_append_right _ inFooter)

/-- Where a program jumps to is not spelled like a register. -/
theorem registerNamed?_target {label : String}
    (isSeen : label ∈ seen Instr.target? (programLines functions)) :
    registerNamed? label.toList = none := by
  obtain ⟨instr, member, isTarget⟩ := mem_seen.mp isSeen
  obtain ⟨lines, isFunction, inLines⟩ : ∃ lines ∈ functions, .instr instr ∈ lines := by
    simpa [mem_programLines, fileHeader, fileFooter] using member
  obtain ⟨graph, present, graphEmitted⟩ := exists_mem_of_forall₂ emitted isFunction
  have isLabel :=
    (leads_emitFunction (finished graph present) graphEmitted inLines).1 label isTarget
  exact (labelAt_symbol (finished graph present) isLabel).2

/-- How the text of a program is read.  It is read as the lines that were emitted, and as no others,
exactly when no function is called whose name is that of a register. -/
structure Reading (graphs : List Graph) (functions : List (List Line)) (text : String) : Prop where
  reads_iff : (∀ lines, ReadAs text lines ↔ lines = programLines functions) ↔
    ∀ graph ∈ graphs, ∀ function ∈ callees graph, registerNamed? function.toList = none
  /-- A call goes to the function that is named, or through the register of that name. -/
  calls_eq : (readText text).filterMap (·.bind Statement.called?) =
    (graphs.flatMap callees).map fun function =>
      [(registerNamed? function.toList).getD (.symbol function)]
  /-- A jump goes to the label of its block. -/
  jumps_eq : (readText text).filterMap (·.bind Statement.jumped?) =
    (graphs.flatMap jumps).map fun label => [.symbol label]

theorem reading_of_emitted (oneLine : ∀ line ∈ programLines functions, OneLine line.text) :
    Reading graphs functions (Line.render (programLines functions)) := by
  have readable := readable_programLines finished emitted
  have calls_seen : seen Instr.callee? (programLines functions) = graphs.flatMap callees :=
    seen_programLines emitted fun graph member _ => (shows_callees graph).emitFunction
      (finished graph member)
  have jumps_seen : seen Instr.target? (programLines functions) = graphs.flatMap jumps :=
    seen_programLines emitted fun graph member _ => (shows_jumps graph).emitFunction
      (finished graph member)
  have noRegister (label : String) (isSeen : label ∈ seen Instr.target? (programLines functions)) :
      registerNamed? label.toList = none :=
    registerNamed?_target finished emitted isSeen
  obtain ⟨jumpNames, callNames⟩ :=
    forall_symbols_iff.mp fun line member => (readable line member).symbols
  refine ⟨?reads, ?calls, ?jumps⟩
  case reads =>
    have readAs_iff : ReadAs (Line.render (programLines functions)) (programLines functions) ↔
        ∀ graph ∈ graphs, ∀ function ∈ callees graph, registerNamed? function.toList = none := by
      rw [readAs_render_iff oneLine readable, forall_symbols_iff, calls_seen,
        and_iff_right noRegister]
      simp only [List.mem_flatMap]
      exact ⟨fun all graph member function called => all function ⟨graph, member, called⟩,
        fun all function ⟨graph, member, called⟩ => all graph member function called⟩
    rw [← readAs_iff]
    exact ⟨fun only => (only _).mpr rfl, fun isRead _ => isRead.only⟩
  case calls =>
    rw [picks_called_jumped.1.readText oneLine readable, ← calls_seen]
    exact List.map_congr_left fun function called =>
      congrArg (fun operand => [operand]) (readOperand_symbol (callNames function called))
  case jumps =>
    rw [picks_called_jumped.2.readText oneLine readable, ← jumps_seen]
    refine List.map_congr_left fun label jumped => ?_
    have isRead := readOperand_symbol (jumpNames label jumped)
    rw [noRegister label jumped] at isRead
    exact congrArg (fun operand => [operand]) isRead

end Programs

end Assembly

/-- The assembly of a compiled program is read as it was meant, unless a function is called that is
named like a register. -/
theorem assembly_reads_back {source : Source} {program : Program} {compilation : Compilation}
    (parsed : parseProgram source.text = .ok program)
    (compiled : (compile source).outcome = .ok compilation) (target : Target)
    (options : Assembly.Options) :
    ∃ functions text,
      List.Forall₂ (fun graph lines => Assembly.emitFunction options graph = .ok lines)
          compilation.graphs functions ∧
        (compilation.assembly target options).outcome = .ok text ∧
        Assembly.Reading compilation.graphs functions text := by
  obtain ⟨finished, functions, emitted, outcome_eq, closed⟩ :=
    exists_closed_assembly parsed compiled target options
  exact ⟨functions, _, emitted, outcome_eq,
    Assembly.reading_of_emitted finished emitted closed.oneLine⟩

/-- The text of a program with a function that is named like a mnemonic, and with a call of an
external function that is named like a register. -/
def mnemonicText : String :=
  "int call()\x7breturn -8;\x7dint main()\x7bwhile(call())rax();return 0;\x7d"

/-- Names of mnemonics and of external functions do not get in the way. -/
theorem assembly_reads_back_mnemonics :
    ∃ program compilation functions text,
      parseProgram (Source.ofText mnemonicText).text = .ok program ∧
        (compile (Source.ofText mnemonicText)).outcome = .ok compilation ∧
        (compilation.assembly .x86LinuxGnu ⟨false, .plain⟩).outcome = .ok text ∧
        (∀ lines, Assembly.ReadAs text lines ↔ lines = Assembly.programLines functions) ∧
        (Assembly.readText text).filterMap (·.bind Assembly.Statement.called?) =
          [[.symbol "call"], [.symbol "rax@PLT"]] := by
  have evaluated : (parseProgram (Source.ofText mnemonicText).text).toOption.any (fun program =>
      program.check.toOption.isSome && program.lower.toOption.any fun graphs =>
        graphs.flatMap Assembly.callees == ["call", "rax@PLT"]) = true := by
    cbv
  obtain ⟨program, compilation, parsed, compiled, tested⟩ := exists_compiled_of_any evaluated
  rw [beq_iff_eq] at tested
  obtain ⟨functions, text, -, outcome_eq, reading⟩ :=
    assembly_reads_back parsed compiled .x86LinuxGnu ⟨false, .plain⟩
  have plain : ["call", "rax@PLT"].all
      (fun function => (Assembly.registerNamed? function.toList).isNone) = true := by
    cbv
  have noRegister : ∀ function ∈ compilation.graphs.flatMap Assembly.callees,
      Assembly.registerNamed? function.toList = none := fun function called =>
    Option.isNone_iff_eq_none.mp (List.all_eq_true.mp plain function (tested ▸ called))
  refine ⟨program, compilation, functions, text, parsed, compiled, outcome_eq,
    reading.reads_iff.mpr fun graph member function called =>
      noRegister function (List.mem_flatMap.mpr ⟨graph, member, called⟩), ?_⟩
  rw [reading.calls_eq, tested]
  decide +kernel

/-- The text of a program with a function that is named like a register. -/
def registerText : String :=
  "int rax()\x7breturn 1;\x7dint main()\x7breturn rax();\x7d"

/-- A program that passes the checks, whose call of a function is read as a call through a
register. -/
theorem call_through_register :
    ∃ program compilation functions text,
      parseProgram (Source.ofText registerText).text = .ok program ∧
        (compile (Source.ofText registerText)).outcome = .ok compilation ∧
        List.Forall₂ (fun graph lines => Assembly.emitFunction ⟨false, .plain⟩ graph = .ok lines)
          compilation.graphs functions ∧
        (compilation.assembly .x86LinuxGnu ⟨false, .plain⟩).outcome = .ok text ∧
        compilation.graphs.flatMap Assembly.callees = ["rax"] ∧
        (Assembly.readText text).filterMap (·.bind Assembly.Statement.called?) =
          [[.register .rax .word64]] ∧
        ¬Assembly.ReadAs text (Assembly.programLines functions) := by
  have evaluated : (parseProgram (Source.ofText registerText).text).toOption.any (fun program =>
      program.check.toOption.isSome && program.lower.toOption.any fun graphs =>
        graphs.flatMap Assembly.callees == ["rax"]) = true := by
    cbv
  obtain ⟨program, compilation, parsed, compiled, tested⟩ := exists_compiled_of_any evaluated
  rw [beq_iff_eq] at tested
  obtain ⟨finished, functions, emitted, outcome_eq, closed⟩ :=
    exists_closed_assembly parsed compiled .x86LinuxGnu ⟨false, .plain⟩
  have reading := Assembly.reading_of_emitted finished emitted closed.oneLine
  refine ⟨program, compilation, functions, _, parsed, compiled, emitted, outcome_eq, tested, ?_, ?_⟩
  · rw [reading.calls_eq, tested]
    decide +kernel
  · intro isRead
    have isCallee : "rax" ∈ compilation.graphs.flatMap Assembly.callees :=
      tested ▸ List.mem_singleton_self _
    obtain ⟨graph, member, called⟩ := List.mem_flatMap.mp isCallee
    have noRegister := reading.reads_iff.mp (fun _ => isRead.only) graph member "rax" called
    have isRegister : Assembly.registerNamed? "rax".toList = some (.register .rax .word64) := by
      cbv
    rw [noRegister] at isRegister
    cases isRegister

end SmallC
